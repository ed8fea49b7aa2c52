/-!
# Versions of class files

A class file has a major version, which grows with the releases, and a minor one.
-/

namespace Downlevel

/-- The version of a class file. -/
structure Version where
  major : UInt16
  minor : UInt16
  deriving DecidableEq, Inhabited

namespace Version

/-- The newest major version that can be read. -/
def newestMajor : UInt16 := 67

/-- Versions are compared by their major part first. -/
def compare (a b : Version) : Ordering :=
  (Ord.compare a.major b.major).then (Ord.compare a.minor b.minor)

/-- Whether one version is at most another. -/
def le (a b : Version) : Bool :=
  compare a b != .gt

/-- Whether class files of this version carry frames for verification. -/
def hasFrames (version : Version) : Bool :=
  le ⟨50, 0⟩ version

/-- Both parts as one number, the minor one in the upper half. -/
def toU32 (version : Version) : UInt32 :=
  (version.minor.toUInt32 <<< 16) ||| version.major.toUInt32

/-- A version as text. -/
def text (version : Version) : String :=
  toString version.major ++ "." ++ toString version.minor

end Version

end Downlevel
