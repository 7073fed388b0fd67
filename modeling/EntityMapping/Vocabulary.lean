/-!
Well-known IRIs.
-/

namespace EntityMapping

namespace Xsd

/-- The namespace of the standard datatypes. -/
def base : String := "http://www.w3.org/2001/XMLSchema#"

def string : String := base ++ "string"
def boolean : String := base ++ "boolean"
def integer : String := base ++ "integer"
def decimal : String := base ++ "decimal"
def double : String := base ++ "double"
def float : String := base ++ "float"
def date : String := base ++ "date"
def anyURI : String := base ++ "anyURI"

/-- Datatypes whose values are whole numbers. -/
def integerFamily : List String :=
  ["integer", "int", "long", "short", "byte", "nonNegativeInteger", "positiveInteger",
    "nonPositiveInteger", "negativeInteger", "unsignedLong", "unsignedInt", "unsignedShort",
    "unsignedByte"].map (base ++ ·)

/-- Datatypes whose values are floating point numbers. -/
def floatFamily : List String := [double, float]

end Xsd

namespace Rdf

/-- The namespace of the basic vocabulary. -/
def base : String := "http://www.w3.org/1999/02/22-rdf-syntax-ns#"

def type : String := base ++ "type"
def first : String := base ++ "first"
def rest : String := base ++ "rest"
def nil : String := base ++ "nil"

end Rdf

end EntityMapping
