import PackIndex.Registry.Item
import PackIndex.Resource.Namespace

/-!
# Resolving resources

A reference is looked for on the shared namespace first, where a match must come from the right
package; then it may be an absolute URL; then it may be a member of the package itself.
-/

namespace PackIndex

/-- Which step answered a look-up. -/
inductive Outcome where
  | deconflicted
  | absolute
  | package
  | unresolved
  deriving DecidableEq, Repr

namespace Outcome

def all : List Outcome := [deconflicted, absolute, package, unresolved]

def word : Outcome → String
  | deconflicted => "deconflicted"
  | absolute => "absolute"
  | package => "package"
  | unresolved => "unresolved"

def ofWord? (s : String) : Option Outcome := all.find? fun o => o.word = s

end Outcome

inductive ResolutionError where
  | missing (what : String)
  | url (e : Url.Error)

def ResolutionError.message : ResolutionError → String
  | .missing what => what ++ " must not be None"
  | .url e => e.message

structure Resolution where
  outcome : Outcome
  handle : Option ResourceHandle

namespace Resolver

/-- The handles whose decoded URL path is accepted. -/
def accepted (accept : String → Bool) :
    List ResourceHandle → Except Url.Error (List ResourceHandle)
  | [] => .ok []
  | h :: rest =>
    match Url.decodedPath h.url with
    | .error e => .error e
    | .ok path =>
      (accepted accept rest).map fun others => if accept path then h :: others else others

/-- The first match on the namespace whose URL path is accepted; several matches are reported if
`report` is set. -/
def deconflict (t : FileTree) (ns : Option SharedNamespace) (ref : String)
    (accept : String → Bool) (report : Bool) : Traced Url.Error (Option ResourceHandle) :=
  match ns with
  | none => pure none
  | some ns => do
    let found ← ns.findResources t ref
    let good ← Traced.ofExcept (accepted accept found)
    match good with
    | [] => return none
    | [h] => return some h
    | h :: _ =>
      if report then Traced.emit (.namespaceMatches ref good.length)
      return some h

/-- Looks a relative reference up in the package itself. -/
def resolveMember (t : FileTree) (l : Location) (ref : String) : Traced Url.Error Resolution :=
  match MemberPath.normalize? ref with
  | none => ⟨.ok ⟨.unresolved, none⟩, [.resourceUnresolved ref l.name]⟩
  | some member =>
    match l.has t member with
    | .error e => ⟨.ok ⟨.unresolved, none⟩, [.packageUnread ref l.name e.message]⟩
    | .ok true => pure ⟨.package, some (.ofMember l member)⟩
    | .ok false => ⟨.ok ⟨.unresolved, none⟩, [.resourceUnresolved ref l.name]⟩

def resolveLocal (t : FileTree) (l : Location) (ref : String) : Traced Url.Error Resolution := do
  let absolute ← Traced.ofExcept (Url.isAbsolute ref)
  if absolute then pure ⟨.absolute, some (.ofUrl ref)⟩ else resolveMember t l ref

/-- Looks a reference up on the namespace, then without it. -/
def resolveWith (t : FileTree) (ns : Option SharedNamespace) (l : Location) (ref : String)
    (accept : String → Bool) (report : Bool) : Traced Url.Error Resolution := do
  let found ← deconflict t ns ref accept report
  match found with
  | some h => return ⟨.deconflicted, some h⟩
  | none => resolveLocal t l ref

/-- Resolves a reference of a registered item. A match on the namespace must show the name of the
item's package, followed by `!`, in its URL path. -/
def resolve (t : FileTree) (ns : Option SharedNamespace) (item : Item) (ref : String) :
    Traced Url.Error Resolution :=
  resolveWith t ns item.source ref (fun path => Text.contains path (item.packageName ++ "!")) true

/-- Resolves a reference of a bare package. A match on the namespace must show the name of the
package anywhere in its URL path. -/
def resolveInPackage (t : FileTree) (ns : Option SharedNamespace) (l : Location) (ref : String) :
    Traced Url.Error Resolution :=
  resolveWith t ns l ref (fun path => Text.contains path l.name) false

def resolveGiven (t : FileTree) (ns : Option SharedNamespace) (item : Option Item)
    (ref : Option String) : Traced ResolutionError Resolution :=
  match item, ref with
  | none, _ => .fail (.missing "item")
  | some _, none => .fail (.missing "resource reference")
  | some item, some ref => (resolve t ns item ref).mapError .url

def resolveInGiven (t : FileTree) (ns : Option SharedNamespace) (l : Option Location)
    (ref : Option String) : Traced ResolutionError Resolution :=
  match l, ref with
  | some l, some ref => (resolveInPackage t ns l ref).mapError .url
  | _, _ => .fail (.missing "location and resource reference")

end Resolver

end PackIndex
