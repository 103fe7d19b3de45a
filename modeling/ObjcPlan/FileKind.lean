import ObjcPlan.Json.Codec

/-!
What the files of a declaration are, by their extensions, and which of them its source attributes
take. Extensions are case-sensitive: `.C` is C++ and `.c` is C.
-/

namespace ObjcPlan

inductive Language
  | objc
  | objcpp
  | c
  | cpp
  | assembly
  deriving DecidableEq

namespace Language

def all : List Language := [objc, objcpp, c, cpp, assembly]

def name : Language → String
  | objc => "objc"
  | objcpp => "objcpp"
  | c => "c"
  | cpp => "cpp"
  | assembly => "assembly"

/-- Whether automatic reference counting is a choice in this language. -/
def usesArc : Language → Bool
  | objc | objcpp => true
  | _ => false

def isCxx : Language → Bool
  | objcpp | cpp => true
  | _ => false

instance : Coded Language := Json.enumeration all name

end Language

inductive FileKind
  | source (language : Language)
  | header
  /-- A file that is only ever included as text. -/
  | textual
  /-- An object that was compiled elsewhere. -/
  | object
  | other
  deriving DecidableEq

namespace FileKind

/-- The extensions of compiled files. -/
def sourceExtensions : List String :=
  ["m", "mm", "c", "cc", "cpp", "cxx", "c++", "C", "s", "S", "asm"]

def headerExtensions : List String :=
  ["h", "hh", "hpp", "hxx", "h++", "ipp"]

def textualExtensions : List String :=
  ["inc", "inl"]

def objectExtensions : List String :=
  ["o"]

/-- The kind of the files with an extension. -/
def ofExtension : String → FileKind
  | "m" => source .objc
  | "mm" => source .objcpp
  | "c" => source .c
  | "cc" | "cpp" | "cxx" | "c++" | "C" => source .cpp
  | "s" | "S" | "asm" => source .assembly
  | "o" => object
  | extension =>
    if extension ∈ headerExtensions then header
    else if extension ∈ textualExtensions then textual
    else other

def ofPath (file : Path) : FileKind :=
  (file.extension?.map ofExtension).getD other

/-- The language, for compiled files. -/
def language? : FileKind → Option Language
  | source language => some language
  | _ => none

end FileKind

/-- An attribute that lists files to compile. -/
inductive SourceAttribute
  | srcs
  | nonArcSrcs
  deriving DecidableEq

namespace SourceAttribute

def name : SourceAttribute → String
  | srcs => "srcs"
  | nonArcSrcs => "non_arc_srcs"

/-- The kinds that the attribute takes: all known kinds, or just what may be compiled without
reference counting. -/
def allows : SourceAttribute → FileKind → Bool
  | srcs, kind => kind ≠ .other
  | nonArcSrcs, .source language => language.usesArc
  | nonArcSrcs, _ => false

/-- The extensions of the files that the attribute takes. -/
def extensions : SourceAttribute → List String
  | srcs =>
    FileKind.sourceExtensions ++ FileKind.headerExtensions ++ FileKind.textualExtensions ++
      FileKind.objectExtensions
  | nonArcSrcs => ["m", "mm"]

/-- The extensions as a message lists them. -/
def expected (a : SourceAttribute) : String :=
  ", ".intercalate (a.extensions.map ("." ++ ·))

end SourceAttribute

end ObjcPlan
