/-!
# Dns/Mnemonic — names of types and classes

The short names of the numbers that stand for types and classes in questions and records. Numbers
without one show as a question mark, and the wildcards as a star.
-/

namespace Packrat.Dns

/-- The names of the types from zero on. -/
def typeNames : List String :=
  ["nil", "A", "NS", "MD", "MF", "CNAME", "SOA", "MB", "MG", "MR", "NULL", "WKS", "PTR", "HINFO",
    "MINFO", "MX", "TXT"]

/-- The names of the classes from zero on. -/
def classNames : List String := ["nil", "IN", "CS", "CH", "HS"]

/-- The name of a type, also of one that only questions ask for. -/
def typeName (code : Nat) : String :=
  match code with
  | 252 => "AXFR"
  | 253 => "MAILB"
  | 254 => "MAILA"
  | 255 => "*"
  | code => typeNames[code]?.getD "?"

/-- The name of a class, also of the one that only questions ask for. -/
def className (code : Nat) : String :=
  match code with
  | 255 => "*"
  | code => classNames[code]?.getD "?"

end Packrat.Dns
