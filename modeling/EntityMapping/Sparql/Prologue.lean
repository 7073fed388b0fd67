import EntityMapping.Iri.Reference
import EntityMapping.Vocabulary

/-!
Declared prefixes and the base IRI.

A prefix stands for one namespace and a namespace has one prefix: a new declaration displaces
those of the same prefix and those of the same namespace.
-/

namespace EntityMapping.Sparql

/-- The declarations in force at some place of a request. -/
structure Prologue where
  base : Option String
  prefixes : List (String × String)
  deriving DecidableEq, Repr

namespace Prologue

/-- Prefixes that need no declaration. -/
def wellKnown : List (String × String) :=
  [("brick", "https://brickschema.org/schema/Brick#"),
    ("csvw", "http://www.w3.org/ns/csvw#"),
    ("dc", "http://purl.org/dc/elements/1.1/"),
    ("dcam", "http://purl.org/dc/dcam/"),
    ("dcat", "http://www.w3.org/ns/dcat#"),
    ("dcmitype", "http://purl.org/dc/dcmitype/"),
    ("dcterms", "http://purl.org/dc/terms/"),
    ("doap", "http://usefulinc.com/ns/doap#"),
    ("foaf", "http://xmlns.com/foaf/0.1/"),
    ("geo", "http://www.opengis.net/ont/geosparql#"),
    ("odrl", "http://www.w3.org/ns/odrl/2/"),
    ("org", "http://www.w3.org/ns/org#"),
    ("owl", "http://www.w3.org/2002/07/owl#"),
    ("prof", "http://www.w3.org/ns/dx/prof/"),
    ("prov", "http://www.w3.org/ns/prov#"),
    ("qb", "http://purl.org/linked-data/cube#"),
    ("rdf", Rdf.base),
    ("rdfs", "http://www.w3.org/2000/01/rdf-schema#"),
    ("schema", "https://schema.org/"),
    ("sh", "http://www.w3.org/ns/shacl#"),
    ("skos", "http://www.w3.org/2004/02/skos/core#"),
    ("sosa", "http://www.w3.org/ns/sosa/"),
    ("ssn", "http://www.w3.org/ns/ssn/"),
    ("time", "http://www.w3.org/2006/time#"),
    ("vann", "http://purl.org/vocab/vann/"),
    ("void", "http://rdfs.org/ns/void#"),
    ("wgs", "https://www.w3.org/2003/01/geo/wgs84_pos#"),
    ("xml", "http://www.w3.org/XML/1998/namespace"),
    ("xsd", Xsd.base)]

/-- The declarations before a request says anything. -/
def initial : Prologue :=
  ⟨none, wellKnown⟩

/-- Declares a prefix. -/
def declare (p : Prologue) (label namespaceIri : String) : Prologue :=
  { p with
    prefixes := (p.prefixes.filter fun (l, n) => l != label && n != namespaceIri) ++
      [(label, namespaceIri)] }

/-- Declares prefixes in order. -/
def declareAll (p : Prologue) (declarations : List (String × String)) : Prologue :=
  declarations.foldl (fun q (label, namespaceIri) => q.declare label namespaceIri) p

/-- The IRI of a reference between angle brackets. -/
def resolve (p : Prologue) (reference : String) : String :=
  Iri.resolve p.base reference

/-- The IRI of a prefixed name, if its prefix is declared. -/
def expand (p : Prologue) (label localName : String) : Option String :=
  (p.prefixes.lookup label).map (· ++ localName)

end Prologue

end EntityMapping.Sparql
