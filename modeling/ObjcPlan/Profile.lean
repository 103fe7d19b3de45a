import ObjcPlan.Facts
import ObjcPlan.FileKind

/-!
The compiler options that every compilation of a configuration starts with.
-/

namespace ObjcPlan.Profile

def warnings : List String := [
  "-Wshorten-64-to-32",
  "-Wbool-conversion",
  "-Wconstant-conversion",
  "-Wduplicate-method-match",
  "-Wempty-body",
  "-Wenum-conversion",
  "-Wint-conversion",
  "-Wunreachable-code",
  "-Wmismatched-return-types",
  "-Wundeclared-selector",
  "-Wuninitialized",
  "-Wunused-function",
  "-Wunused-variable"]

def simulatorFlags : List String :=
  ["-fexceptions", "-fasm-blocks", "-fobjc-abi-version=2", "-fobjc-legacy-dispatch"]

/-- The choice of the C++ standard and its library. -/
def cxxFlags : List String :=
  ["-stdlib=libc++", "-std=gnu++11"]

/-- The options of a compilation mode. Optimized builds keep debug information if `generateDsym`
is set. -/
def modeFlags (mode : CompilationMode) (generateDsym : Bool) : List String :=
  match mode with
  | .dbg => ["-O0", "-DDEBUG=1", "-fstack-protector", "-fstack-protector-all", "-g"]
  | .fastbuild => ["-O0", "-DDEBUG=1"]
  | .opt =>
    ["-Os", "-DNDEBUG=1", "-Wno-unused-variable", "-Winit-self", "-Wno-extra",
      if generateDsym then "-g" else "-g0"]

/-- The options up to and including those of the mode and the simulator. -/
def baseFlags (f : Facts) (language : Language) : List String :=
  warnings ++ [f.platform.osDefine, "-fno-autolink"] ++
    (if language.isCxx then cxxFlags else []) ++
    modeFlags f.compilationMode f.generateDsym ++
    (if f.platform.isSimulator then simulatorFlags else [])

end ObjcPlan.Profile
