import ObjcPlan.Json.Codec

/-!
Apple platforms. A `Family` is an operating system; a `Platform` is a family together with the
choice between simulator and device, which the architecture makes.
-/

namespace ObjcPlan

inductive Family
  | ios
  | macos
  | tvos
  | watchos
  deriving DecidableEq

namespace Family

def all : List Family := [ios, macos, tvos, watchos]

def name : Family → String
  | ios => "ios"
  | macos => "macos"
  | tvos => "tvos"
  | watchos => "watchos"

/-- The SDK version where none is configured. -/
def defaultSdkVersion : Family → String
  | ios => "8.4"
  | macos => "10.10"
  | tvos => "9.0"
  | watchos => "2.0"

/-- Whether programs for this architecture run in the family's simulator. -/
def isSimulated : Family → String → Bool
  | macos, _ => false
  | _, arch => arch = "i386" || arch = "x86_64"

instance : Coded Family := Json.enumeration all name

end Family

/-- One value for each family. -/
structure PerFamily (α : Type) where
  ios : α
  macos : α
  tvos : α
  watchos : α
  deriving DecidableEq

namespace PerFamily

variable {α : Type}

def get (p : PerFamily α) : Family → α
  | .ios => p.ios
  | .macos => p.macos
  | .tvos => p.tvos
  | .watchos => p.watchos

def set (p : PerFamily α) (family : Family) (value : α) : PerFamily α :=
  match family with
  | .ios => { p with ios := value }
  | .macos => { p with macos := value }
  | .tvos => { p with tvos := value }
  | .watchos => { p with watchos := value }

end PerFamily

inductive Platform
  | iosSimulator
  | iosDevice
  | macos
  | tvosSimulator
  | tvosDevice
  | watchosSimulator
  | watchosDevice
  deriving DecidableEq

namespace Platform

def all : List Platform :=
  [iosSimulator, iosDevice, macos, tvosSimulator, tvosDevice, watchosSimulator, watchosDevice]

def name : Platform → String
  | iosSimulator => "ios_simulator"
  | iosDevice => "ios_device"
  | macos => "macos"
  | tvosSimulator => "tvos_simulator"
  | tvosDevice => "tvos_device"
  | watchosSimulator => "watchos_simulator"
  | watchosDevice => "watchos_device"

/-- The platform of a family on which programs for an architecture run. -/
def ofArch (family : Family) (arch : String) : Platform :=
  match family, family.isSimulated arch with
  | .ios, true => iosSimulator
  | .ios, false => iosDevice
  | .macos, _ => macos
  | .tvos, true => tvosSimulator
  | .tvos, false => tvosDevice
  | .watchos, true => watchosSimulator
  | .watchos, false => watchosDevice

def family : Platform → Family
  | iosSimulator | iosDevice => .ios
  | macos => .macos
  | tvosSimulator | tvosDevice => .tvos
  | watchosSimulator | watchosDevice => .watchos

def isSimulator : Platform → Bool
  | iosSimulator | tvosSimulator | watchosSimulator => true
  | _ => false

/-- The name of the platform's bundle, which also identifies the platform to the tools. -/
def bundleName : Platform → String
  | iosSimulator => "iPhoneSimulator"
  | iosDevice => "iPhoneOS"
  | macos => "MacOSX"
  | tvosSimulator => "AppleTVSimulator"
  | tvosDevice => "AppleTVOS"
  | watchosSimulator => "WatchSimulator"
  | watchosDevice => "WatchOS"

/-- The front of the compiler option that sets the least version of the operating system. -/
def minimumOsOption : Platform → String
  | iosSimulator => "-mios-simulator-version-min="
  | iosDevice => "-miphoneos-version-min="
  | macos => "-mmacosx-version-min="
  | tvosSimulator => "-mtvos-simulator-version-min="
  | tvosDevice => "-mtvos-version-min="
  | watchosSimulator => "-mwatchos-simulator-version-min="
  | watchosDevice => "-mwatchos-version-min="

/-- The definition that tells sources which family they are compiled for. -/
def osDefine (p : Platform) : String :=
  match p.family with
  | .ios => "-DOS_IOS"
  | .macos => "-DOS_MACOSX"
  | .tvos => "-DOS_TVOS"
  | .watchos => "-DOS_WATCHOS"

/-- The directory of the platform's tools among those of all platforms. -/
def toolDirectory : Platform → String
  | iosSimulator => "iossim"
  | iosDevice => "ios"
  | macos => "mac"
  | tvosSimulator => "tvsim"
  | tvosDevice => "tvos"
  | watchosSimulator => "watchsim"
  | watchosDevice => "watchos"

instance : Coded Platform := Json.enumeration all name

end Platform

end ObjcPlan
