import PackIndex.Metrics

/-!
# Resolvers with metrics

A resolver that may have a shared namespace and may have metrics, which it tells which step answered
each look-up. A look-up that fails is not told.
-/

namespace PackIndex

structure MeteredResolver where
  shared : Option SharedNamespace
  metrics : Option Metrics

namespace MeteredResolver

def record (r : MeteredResolver) (o : Outcome) : MeteredResolver :=
  { r with metrics := r.metrics.map fun m => m.recordResolution o }

def answer (r : MeteredResolver) (found : Traced ResolutionError Resolution) :
    Traced ResolutionError (Option ResourceHandle) × MeteredResolver :=
  match found.result with
  | .error e => (⟨.error e, found.events⟩, r)
  | .ok resolution => (⟨.ok resolution.handle, found.events⟩, r.record resolution.outcome)

def resolve (t : FileTree) (r : MeteredResolver) (item : Option Item) (ref : Option String) :
    Traced ResolutionError (Option ResourceHandle) × MeteredResolver :=
  r.answer (Resolver.resolveGiven t r.shared item ref)

def resolveInPackage (t : FileTree) (r : MeteredResolver) (l : Option Location)
    (ref : Option String) : Traced ResolutionError (Option ResourceHandle) × MeteredResolver :=
  r.answer (Resolver.resolveInGiven t r.shared l ref)

end MeteredResolver

end PackIndex
