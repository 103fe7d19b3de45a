import ObjcPlan.Declaration
import ObjcPlan.Platform

/-!
Toolchains: where the compiler, the archiver and the SDK of each platform are, and how declarations
are written there.
-/

namespace ObjcPlan

/-- Which declarations cannot be written as JSON, with the fault that is reported for each. A path
has here the text that it is shown with. Where its bytes are not Unicode, that text does not tell
them, and they cannot be written. -/
structure Writer where
  libraryFault? : Library → Option String
  foreignFault? : ForeignLibrary → Option String

/-- The writer where all paths are Unicode. -/
def Writer.unicode : Writer where
  libraryFault? _ := none
  foreignFault? _ := none

/-- The tools for every platform. `identity` tells two toolchains apart in the analysis cache. -/
structure Toolchain where
  compiler : Platform → Path
  archiver : Platform → Path
  sdkRoot : Platform → String
  developerDir : String
  identity : String
  writer : Writer := .unicode

namespace Toolchain

/-- Stands for the SDK root until the action runs. -/
def sdkRootPlaceholder : String := "__XCODE_SDKROOT__"

/-- Stands for the Xcode developer directory until the action runs. -/
def developerDirPlaceholder : String := "__XCODE_DEVELOPER_DIR__"

/-- The root of the wrapped tools where none is given. -/
def defaultRoot : Path := "tools/osx/crosstool"

/-- The wrapped Xcode tools below a root directory. -/
def xcode (root : Path) : Toolchain where
  compiler p := root / p.toolDirectory / "wrapped_clang"
  archiver p := root / p.toolDirectory / "libtool"
  sdkRoot _ := sdkRootPlaceholder
  developerDir := developerDirPlaceholder
  identity := "xcode:" ++ root.text

end Toolchain

end ObjcPlan
