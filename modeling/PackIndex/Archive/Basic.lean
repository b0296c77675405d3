import PackIndex.Text.Quoted
import PackIndex.Text.Utf8

/-!
# Archives

An archive is a list of named members. A name may occur several times; the last member of a name
is the one that is read. A member may be unreadable in one of three ways.

There are more ways in practice, which are left out: compressed data that cannot be decompressed,
and archives that cannot be opened for the version that they need or for undecodable names in them.
-/

namespace PackIndex

inductive MemberFault where
  | badChecksum
  | encrypted
  | unknownMethod
  deriving DecidableEq

structure Member where
  name : String
  content : List UInt8
  fault : Option MemberFault
  deriving DecidableEq

structure Archive where
  members : List Member
  deriving DecidableEq

inductive MemberError where
  | missing (name : String)
  /-- The path names no member at all. -/
  | unusablePath (path : String)
  | faulty (name : String) (fault : MemberFault)

def MemberError.message : MemberError → String
  | .missing name => "There is no item named " ++ Text.quoted name ++ " in the archive"
  | .unusablePath path => path
  | .faulty name .badChecksum => "Bad CRC-32 for file " ++ Text.quoted name
  | .faulty name .encrypted =>
    "File " ++ Text.quoted name ++ " is encrypted, password required for extraction"
  | .faulty _ .unknownMethod => "That compression method is not supported"

namespace Archive

def names (a : Archive) : List String := a.members.map Member.name

/-- The last member of a name. -/
def find? (a : Archive) (name : String) : Option Member :=
  a.members.reverse.find? fun m => m.name = name

def has (a : Archive) (name : String) : Bool := (a.find? name).isSome

def read (a : Archive) (name : String) : Except MemberError (List UInt8) :=
  match a.find? name with
  | none => .error (.missing name)
  | some m =>
    match m.fault with
    | none => .ok m.content
    | some fault => .error (.faulty m.name fault)

end Archive

end PackIndex
