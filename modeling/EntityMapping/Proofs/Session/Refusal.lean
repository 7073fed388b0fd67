import EntityMapping.Proofs.Cache.Bound
import EntityMapping.Proofs.Session.Mutation

/-!
A mutation that fails changes nothing.

Here the mutations are taken apart into the steps in which they are carried out: checks, assignments
to the entity, and the bookkeeping of the session.  What was done before a failure stays done, so
nothing but the order of the steps keeps a session from being left half changed.  All checks come
before the first assignment, and the bookkeeping never fails.
-/

namespace EntityMapping

/-- What stops a mutation. -/
inductive Failure where
  | refused (cause : MappingError)
  /-- A key that is to be pinned is not in the cache. -/
  | missingKey (key : String × String)

/-- Steps on a session that stop at the first failure. -/
abbrev Procedure (σ : Type) : Type → Type :=
  EStateM Failure (Session σ)

namespace Procedure

variable {σ α β : Type} {s : Session σ}

/-- A computation that does not touch the session. -/
def check : Except MappingError α → Procedure σ α
  | .ok a => pure a
  | .error cause => throw (.refused cause)

/-- Goes on if the test is negative. -/
def refuseIf (test : Bool) (cause : MappingError) : Procedure σ Unit :=
  if test then throw (.refused cause) else pure ()

/-! ### Bookkeeping -/

/-- The cached entity of a key; finding one counts as a use. -/
def lookUp (key : String × String) : Procedure σ (Option EntityId) :=
  modifyGet fun s => ((s.cache.get key).1, { s with cache := (s.cache.get key).2 })

/-- Pins a key, which has to be in the cache. -/
def pin (key : String × String) : Procedure σ Unit := fun s =>
  match s.cache.pin? key with
  | some cache => .ok () { s with cache := cache }
  | none => .error (.missingKey key) s

/-- Pins an entity in the cache.  If the cache holds another entity of the same key, or none, this
one takes the place. -/
def keep (id : EntityId) (key : String × String) : Procedure σ Unit := do
  if (← lookUp key) = some id then pin key
  else modify fun s => { s with cache := s.cache.put key (some id) true }

/-- Marks an entity as one with changes in the journal. -/
def markDirty (id : EntityId) (key : String × String) : Procedure σ Unit := do
  keep id key
  modify fun s => { s with dirty := Session.withId s.dirty id }
  if (← get).journal.committing then
    modify fun s => { s with redirtied := Session.withId s.redirtied id }

/-- Puts a change into the journal and marks its entity. -/
def record (id : EntityId) (key : String × String) (c : Change) : Procedure σ Unit := do
  modify fun s => { s with journal := s.journal.append c }
  markDirty id key

/-- Assigns to an entity, and records the change. -/
def assign (id : EntityId) (after : Entity) (c : Change) : Procedure σ Unit := do
  modify fun s => s.setEntity id after
  record id after.key c

/-! ### Mutators -/

/-- Steps on one entity; there is nothing to do without it. -/
def onEntity (id : EntityId) (steps : Entity → Procedure σ Unit) : Procedure σ Unit := do
  match (← get).entity? id with
  | some e => steps e
  | none => pure ()

/-- Sets or unsets a property of a single value. -/
def set (id : EntityId) (name : String) (v : Value) : Procedure σ Unit :=
  onEntity id fun e => do
    let (p, predicate) ← check (e.writable name)
    refuseIf (!p.isFunctional) (.multiValued name)
    let old := (e.values.terms name).head?
    match v with
    | .nothing =>
      refuseIf (!p.isNullable) (.mandatoryUnset name e.uri)
      match old with
      | none => pure ()
      | some t => assign id (e.holding name (.single none)) (.remove e.uri predicate t)
    | v =>
      let new ← check (p.termFor v old.toList)
      assign id (e.holding name (.single (some new))) (match old with
        | none => .add e.uri predicate new
        | some t => .replace e.uri predicate t new)

/-- Changes the values of a property of many. -/
def alter (id : EntityId) (name : String) (v : Value) (cause : String → MappingError)
    (change : Term → List Term → List Term) (node : String → String → Term → Change) :
    Procedure σ Unit :=
  onEntity id fun e => do
    let (p, predicate) ← check (e.writable name)
    refuseIf p.isFunctional (cause name)
    let stored := e.values.terms name
    let t ← check (p.termFor v stored)
    assign id (e.holding name (.several (change t stored))) (node e.uri predicate t)

/-- Adds a value to a property of many. -/
def add (id : EntityId) (name : String) (v : Value) : Procedure σ Unit :=
  alter id name v .singleValuedAdd Term.insertInto .add

/-- Removes a value from a property of many. -/
def remove (id : EntityId) (name : String) (v : Value) : Procedure σ Unit :=
  alter id name v .singleValuedRemove Term.eraseFrom .remove

/-- Deletes an entity. -/
def delete (id : EntityId) : Procedure σ Unit :=
  onEntity id fun e => do
    refuseIf e.deleted (.actionOnDeleted "delete" e.uri)
    assign id { e with deleted := true } (.delete e.uri)

/-- Redirects an entity to another one or to an IRI. -/
def redirect (id : EntityId) (target : Value) : Procedure σ Unit :=
  onEntity id fun e => do
    refuseIf e.deleted (.actionOnDeleted "redirect" e.uri)
    let uri ← check (Entity.redirectTarget target ((← get).isDeleted target))
    refuseIf (uri == e.uri) (.redirectToItself e.uri)
    assign id { e with deleted := true } (.redirect e.uri uri)

/-- Creates an entity with a fresh IRI. -/
def create (t : EntityType) (values : InitialValues) : Procedure σ EntityId := do
  check (t.checkInitial values)
  let suffix ← modifyGet fun s => (s.suffixes.next.1, { s with suffixes := s.suffixes.next.2 })
  let uri := t.namespaceIri ++ t.anchor ++ suffix
  let d ← check (t.draft uri values)
  let e := Entity.created t uri d.state
  let id ← modifyGet fun s => s.addEntity e
  record id e.key (.create uri (Change.separator.intercalate d.updates))
  return id

/-! ### Results -/

theorem bind_apply (x : Procedure σ α) (f : α → Procedure σ β) (s : Session σ) :
    (x >>= f) s = match x s with
      | .ok a after => f a after
      | .error failure after => .error failure after := by
  change EStateM.bind x f s = _
  unfold EStateM.bind
  cases x s <;> rfl

theorem pure_apply (a : α) (s : Session σ) : (pure a : Procedure σ α) s = .ok a s := rfl

theorem modify_apply (f : Session σ → Session σ) (s : Session σ) :
    (modify f : Procedure σ PUnit) s = .ok ⟨⟩ (f s) := rfl

theorem get_apply (s : Session σ) : (get : Procedure σ (Session σ)) s = .ok s s := rfl

theorem modifyGet_bind_apply (g : Session σ → α × Session σ) (f : α → Procedure σ β)
    (s : Session σ) : (modifyGet g >>= f) s = f (g s).1 (g s).2 := rfl

theorem check_bind_apply (x : Except MappingError α) (f : α → Procedure σ β) (s : Session σ) :
    (check x >>= f) s = match x with
      | .ok a => f a s
      | .error cause => .error (.refused cause) s := by
  cases x <;> rfl

theorem lookUp_apply (key : String × String) (s : Session σ) :
    lookUp key s = .ok (s.cache.get key).1 { s with cache := (s.cache.get key).2 } := rfl

/-- A key that a look-up finds is there to be pinned. -/
theorem keep_apply (id : EntityId) (key : String × String) (s : Session σ) :
    keep id key s = .ok () { s with cache := Session.pinEntity s.cache key id } := by
  rw [keep, bind_apply, lookUp_apply]
  by_cases hfound : (s.cache.get key).1 = some id
  · have hpresent : key ∈ (s.cache.get key).2.keys := by
      rw [Cache.get_fst] at hfound
      exact Cache.mem_keys.mpr ⟨some id, Cache.mem_get_of_peek hfound⟩
    simp only [if_pos hfound, pin, Session.pinEntity, Cache.pin?_of_present hpresent,
      Option.getD_some]
  · simp only [if_neg hfound, modify_apply, Session.pinEntity]

/-- The bookkeeping of a change never fails. -/
theorem record_apply {id : EntityId} {e : Entity} (he : s.entity? id = some e) (c : Change) :
    record id e.key c s = .ok () (s.record id c) := by
  rw [Session.record_eq he, record, bind_apply, modify_apply]
  simp only [markDirty, bind_apply, keep_apply, modify_apply, get_apply]
  cases hcommitting : s.journal.committing with
  | false => simp [Journal.append, hcommitting, pure_apply]
  | true => simp [Journal.append, hcommitting, modify_apply]

theorem assign_apply {id : EntityId} {e : Entity} (he : s.entity? id = some e) (after : Entity)
    (c : Change) : assign id after c s = .ok () ((s.setEntity id after).record id c) := by
  rw [assign, bind_apply, modify_apply]
  exact record_apply ((Session.entity?_setEntity s he after id).trans (if_pos rfl)) c

/-! ### Steps and the computations they carry out -/

/-- The result of steps that leave the session as it is if they fail. -/
def settled (s : Session σ) :
    Except MappingError (Session σ) → EStateM.Result Failure (Session σ) Unit
  | .ok after => .ok () after
  | .error cause => .error (.refused cause) s

/-- The steps fail where the computation does, and then the session is as it was; otherwise they
lead to the session that is made of its result. -/
def CarriesOut (s : Session σ) (made : α → Session σ) (steps : Procedure σ Unit)
    (x : Except MappingError α) : Prop :=
  steps s = settled s (x.map made)

variable {made : α → Session σ}

theorem CarriesOut.check {x : Except MappingError β} {steps : β → Procedure σ Unit}
    {f : β → Except MappingError α} (h : ∀ b, CarriesOut s made (steps b) (f b)) :
    CarriesOut s made (check x >>= steps) (x >>= f) := by
  cases x with
  | error cause => rfl
  | ok b => exact h b

theorem CarriesOut.refuseIf {test : Bool} {cause : MappingError} {steps : Unit → Procedure σ Unit}
    {f : PUnit → Except MappingError α} (h : CarriesOut s made (steps ()) (f ⟨⟩)) :
    CarriesOut s made (refuseIf test cause >>= steps)
      (if test then (do let r ← throw cause; f r) else f ⟨⟩) := by
  cases test with
  | true => rfl
  | false => exact h

theorem CarriesOut.get {steps : Session σ → Procedure σ Unit} {x : Except MappingError α}
    (h : CarriesOut s made (steps s) x) : CarriesOut s made (get >>= steps) x :=
  h

theorem CarriesOut.comp {made : β → Session σ} {steps : Procedure σ Unit} {f : α → β}
    {x : Except MappingError α} (h : CarriesOut s (fun a => made (f a)) steps x) :
    CarriesOut s made steps (x.map f) := by
  unfold CarriesOut at h ⊢
  rw [h]
  cases x <;> rfl

/-- The session after a mutation of one entity that is not refused. -/
def mutated (s : Session σ) (id : EntityId) : Option (Entity × Change) → Session σ
  | none => s
  | some (after, c) => (s.setEntity id after).record id c

variable {id : EntityId} {e : Entity}

theorem carriesOut_assign (he : s.entity? id = some e) (after : Entity) (c : Change) :
    CarriesOut s (fun result => mutated s id (some result)) (assign id after c)
      (.ok (after, c)) :=
  assign_apply he after c

theorem onEntity_apply {steps : Entity → Procedure σ Unit}
    {f : Entity → Except MappingError (Option (Entity × Change))}
    (h : ∀ e, s.entity? id = some e → CarriesOut s (mutated s id) (steps e) (f e)) :
    onEntity id steps s = settled s (s.mutate id f) := by
  rw [onEntity, bind_apply, get_apply]
  unfold Session.mutate
  dsimp only
  cases he : s.entity? id with
  | none => rfl
  | some e =>
      refine (h e he).trans ?_
      dsimp only
      cases f e with
      | error cause => rfl
      | ok result => cases result <;> rfl

/-! ### The mutators -/

theorem set_apply (id : EntityId) (name : String) (v : Value) (s : Session σ) :
    set id name v s = settled s (s.set id name v) := by
  refine onEntity_apply fun e he => ?_
  unfold Entity.set
  refine .check fun found => .refuseIf ?_
  dsimp only
  cases v with
  | nothing =>
      refine .refuseIf ?_
      cases (e.values.terms name).head? with
      | none => exact rfl
      | some t => exact assign_apply he _ _
  | datum _ | term _ | entity _ _ | list _ =>
      cases (e.values.terms name).head? with
      | none => exact .check fun new => assign_apply he _ _
      | some t => exact .check fun new => assign_apply he _ _

theorem alter_apply {f : Entity → String → Value → Except MappingError (Entity × Change)}
    {cause : String → MappingError} {change : Term → List Term → List Term}
    {node : String → String → Term → Change}
    (hf : ∀ e name v, f e name v = (do
      let (p, predicate) ← e.writable name
      if p.isFunctional then throw (cause name)
      let stored := e.values.terms name
      let t ← p.termFor v stored
      return (e.holding name (.several (change t stored)), node e.uri predicate t)))
    (id : EntityId) (name : String) (v : Value) (s : Session σ) :
    alter id name v cause change node s =
      settled s (s.mutate id fun e => (f e name v).map some) := by
  refine onEntity_apply fun e he => .comp ?_
  rw [hf]
  refine .check fun found => .refuseIf (.check fun t => ?_)
  exact carriesOut_assign he _ _

theorem delete_apply (id : EntityId) (s : Session σ) :
    delete id s = settled s (s.delete id) := by
  refine onEntity_apply fun e he => .comp ?_
  unfold Entity.delete
  refine .refuseIf ?_
  exact carriesOut_assign he _ _

theorem redirect_apply (id : EntityId) (target : Value) (s : Session σ) :
    redirect id target s = settled s (s.redirect id target) := by
  refine onEntity_apply fun e he => .comp ?_
  unfold Entity.redirect
  refine .refuseIf (.get (.check fun uri => .refuseIf ?_))
  exact carriesOut_assign he _ _

theorem add_apply (id : EntityId) (name : String) (v : Value) (s : Session σ) :
    add id name v s = settled s (s.add id name v) :=
  alter_apply (fun _ _ _ => rfl) id name v s

theorem remove_apply (id : EntityId) (name : String) (v : Value) (s : Session σ) :
    remove id name v s = settled s (s.remove id name v) :=
  alter_apply (fun _ _ _ => rfl) id name v s

/-- A creation that is refused may have used up an identifier. -/
theorem create_apply (t : EntityType) (values : InitialValues) (s : Session σ) :
    create t values s = match s.create t values with
      | (.ok id, after) => .ok id after
      | (.error cause, after) => .error (.refused cause) after := by
  unfold Session.create
  rw [create, check_bind_apply]
  cases t.checkInitial values with
  | error cause => rfl
  | ok checked =>
      dsimp only
      rw [modifyGet_bind_apply, check_bind_apply]
      cases t.draft (t.namespaceIri ++ t.anchor ++ s.suffixes.next.1) values with
      | error cause => rfl
      | ok d =>
          dsimp only
          rw [modifyGet_bind_apply, bind_apply, record_apply]
          · rfl
          · exact (Session.entity?_addEntity _ _ _).trans (if_pos rfl)

end Procedure

/-! ### Deleted entities -/

theorem Entity.writable_of_deleted {e : Entity} {name : String} {p : Property}
    (h : e.deleted = true) (hp : e.type.property name = .ok p) :
    e.writable name = .error (.setOnDeleted name e.uri) := by
  rw [writable, hp, h]
  rfl

/-- Steps on an entity are refused where what they carry out is. -/
theorem Procedure.refused_of_error {σ : Type} {s : Session σ} {id : EntityId} {e : Entity}
    {steps : Procedure σ Unit} {f : Entity → Except MappingError (Option (Entity × Change))}
    {cause : MappingError} (hsteps : steps s = settled s (s.mutate id f))
    (he : s.entity? id = some e) (hf : f e = .error cause) :
    steps s = .error (.refused cause) s := by
  simp only [hsteps, Session.mutate, he, hf]
  rfl

/-- Steps that need a property to be writable are refused on a deleted entity. -/
theorem Procedure.refused_of_writable {σ : Type} {s : Session σ} {id : EntityId} {e : Entity}
    {name : String} {steps : Procedure σ Unit}
    {f : Entity → Except MappingError (Option (Entity × Change))}
    (hsteps : steps s = settled s (s.mutate id f)) (he : s.entity? id = some e)
    (hdeleted : e.deleted = true) (hname : ∃ p, e.type.property name = .ok p)
    (hf : ∀ cause, e.writable name = .error cause → f e = .error cause) :
    ∃ cause, steps s = .error (.refused cause) s ∧ cause.kind = some .mutationOnDeleted := by
  obtain ⟨p, hp⟩ := hname
  refine ⟨.setOnDeleted name e.uri, refused_of_error hsteps he ?_, rfl⟩
  exact hf _ (Entity.writable_of_deleted hdeleted hp)

/-! ### All mutations -/

namespace Mutation

variable {σ : Type} {s : Session σ} {m : Mutation} {e : Entity}

/-- The steps of a mutation. -/
def procedure : Mutation → Procedure σ Unit
  | .create t values => do let _ ← Procedure.create t values
  | .set id name v => Procedure.set id name v
  | .add id name v => Procedure.add id name v
  | .remove id name v => Procedure.remove id name v
  | .delete id => Procedure.delete id
  | .redirect id target => Procedure.redirect id target

/-- The mutation is one of an entity.  If it is about a property, the entity has it. -/
def FitsTo (e : Entity) : Mutation → Prop
  | .create _ _ => False
  | .set _ name _ | .add _ name _ | .remove _ name _ => ∃ p, e.type.property name = .ok p
  | .delete _ | .redirect _ _ => True

/-- The session that steps leave, whether they fail or not. -/
def left : EStateM.Result Failure (Session σ) Unit → Session σ
  | .ok _ after => after
  | .error _ after => after

/-- Unless an entity is created, the steps fail without a trace or do what the mutation does. -/
theorem procedure_cases (m : Mutation) (s : Session σ) : (∃ t values, m = .create t values) ∨
    ∃ x, m.procedure s = Procedure.settled s x ∧ m.run s = x.toOption.getD s := by
  cases m with
  | create t values => exact Or.inl ⟨t, values, rfl⟩
  | set id name v => exact Or.inr ⟨_, Procedure.set_apply id name v s, rfl⟩
  | add id name v => exact Or.inr ⟨_, Procedure.add_apply id name v s, rfl⟩
  | remove id name v => exact Or.inr ⟨_, Procedure.remove_apply id name v s, rfl⟩
  | delete id => exact Or.inr ⟨_, Procedure.delete_apply id s, rfl⟩
  | redirect id target => exact Or.inr ⟨_, Procedure.redirect_apply id target s, rfl⟩

theorem procedure_create (t : EntityType) (values : InitialValues) (s : Session σ) :
    (Mutation.create t values).procedure s = match s.create t values with
      | (.ok _, after) => .ok () after
      | (.error cause, after) => .error (.refused cause) after := by
  rw [procedure, Procedure.bind_apply, Procedure.create_apply]
  rcases s.create t values with ⟨_ | id, after⟩ <;> rfl

/-- The steps of a mutation do what the mutation does. -/
theorem left_procedure (m : Mutation) (s : Session σ) : left (m.procedure s) = m.run s := by
  rcases m.procedure_cases s with ⟨t, values, rfl⟩ | ⟨x, hsteps, hrun⟩
  · rw [procedure_create, run]
    rcases s.create t values with ⟨_ | id, after⟩ <;> rfl
  · rw [hsteps, hrun]
    cases x <;> rfl

/-- Steps that fail are refused, and leave the session as it was. -/
theorem unchanged_of_error {failure : Failure} {after : Session σ}
    (h : m.procedure s = .error failure after) : (∃ cause, failure = .refused cause) ∧
      ∃ suffixes, after = { s with suffixes := suffixes } ∧
        ((∀ t values, m ≠ .create t values) → suffixes = s.suffixes) := by
  rcases m.procedure_cases s with ⟨t, values, rfl⟩ | ⟨x, hsteps, -⟩
  · rw [procedure_create] at h
    obtain ⟨cause, suffixes, hrefused⟩ | ⟨d, -, hmade⟩ := s.create_cases t values
    · rw [hrefused] at h
      cases h
      exact ⟨⟨cause, rfl⟩, suffixes, rfl, fun hother => absurd rfl (hother t values)⟩
    · rw [hmade] at h
      cases h
  · rw [hsteps] at h
    cases x with
    | ok made => cases h
    | error cause =>
        cases h
        exact ⟨⟨cause, rfl⟩, s.suffixes, rfl, fun _ => rfl⟩

/-- A deleted entity refuses every mutation that fits to it. -/
theorem refused_of_deleted (he : s.entity? (m.author s) = some e) (hdeleted : e.deleted = true)
    (hfits : m.FitsTo e) : ∃ cause, m.procedure s = .error (.refused cause) s ∧
      cause.kind = some .mutationOnDeleted := by
  cases m with
  | create t values => exact hfits.elim
  | set id name v =>
      refine Procedure.refused_of_writable (Procedure.set_apply id name v s) he hdeleted hfits ?_
      intro cause hcause
      rw [Entity.set, hcause]
      rfl
  | add id name v =>
      refine Procedure.refused_of_writable (Procedure.add_apply id name v s) he hdeleted hfits ?_
      intro cause hcause
      rw [Entity.add, hcause]
      rfl
  | remove id name v =>
      refine Procedure.refused_of_writable (Procedure.remove_apply id name v s) he hdeleted hfits ?_
      intro cause hcause
      rw [Entity.remove, hcause]
      rfl
  | delete id =>
      refine ⟨.actionOnDeleted "delete" e.uri,
        Procedure.refused_of_error (Procedure.delete_apply id s) he ?_, rfl⟩
      rw [Entity.delete, hdeleted]
      rfl
  | redirect id target =>
      refine ⟨.actionOnDeleted "redirect" e.uri,
        Procedure.refused_of_error (Procedure.redirect_apply id target s) he ?_, rfl⟩
      rw [Entity.redirect, hdeleted]
      rfl

/-- A mutation that fails leaves everything as it was: the entities with their values and what is
committed of them, the journal, what is dirty, the cache and its pins.  A creation that fails may
use up an identifier.  Nothing but a refusal makes a mutation fail, and a deleted entity refuses
every mutation. -/
theorem failure_changes_nothing (m : Mutation) (s : Session σ) :
    left (m.procedure s) = m.run s ∧
    (∀ failure after, m.procedure s = .error failure after → (∃ cause, failure = .refused cause) ∧
      ∃ suffixes, after = { s with suffixes := suffixes } ∧
        ((∀ t values, m ≠ .create t values) → suffixes = s.suffixes)) ∧
    ∀ e, s.entity? (m.author s) = some e → e.deleted = true → m.FitsTo e →
      ∃ cause, m.procedure s = .error (.refused cause) s ∧ cause.kind = some .mutationOnDeleted :=
  ⟨m.left_procedure s, fun _ _ => unchanged_of_error, fun _ => refused_of_deleted⟩

end Mutation

end EntityMapping
