import PackIndex.Yaml.Basic
import PackIndex.Yaml.Token

/-!
# Reading plain documents

A reader of the plain part of YAML, which the programs here use: block and flow collections of
words and quoted texts, in which missing keys and values are null. A text holds at most one
document. What the reader does not cover it refuses.
-/

namespace PackIndex.Yaml

namespace Token

def endsBlockItem : List Token → Bool
  | .blockEntry :: _ | .blockEnd :: _ | [] => true
  | _ => false

def endsBlockPart : List Token → Bool
  | .key :: _ | .value :: _ | .blockEnd :: _ | [] => true
  | _ => false

def endsFlatItem (tokens : List Token) : Bool := endsBlockItem tokens || endsBlockPart tokens

def endsFlowItem : List Token → Bool
  | .flowEntry :: _ | .flowSequenceEnd :: _ => true
  | _ => false

def endsFlowPair : List Token → Bool
  | .flowEntry :: _ | .flowMappingEnd :: _ => true
  | _ => false

def startsValue : List Token → Bool
  | .value :: _ => true
  | _ => false

end Token

/-- A node as the key of a mapping, which has to be a scalar. -/
def keyOf? : Yaml → Option Value
  | scalar v => some v
  | _ => none

mutual

/-- The node that starts here. Blocks are open to it only outside brackets, and a list without
indentation of its own only inside a mapping. -/
def node? (block flat : Bool) : Nat → List Token → Option (Yaml × List Token)
  | 0, _ => none
  | _ + 1, .scalar v :: rest => some (scalar v, rest)
  | n + 1, .flowSequenceStart :: rest =>
    (flowItems? true n rest).map fun (items, rest) => (list items, rest)
  | n + 1, .flowMappingStart :: rest =>
    (flowPairs? true n rest).map fun (pairs, rest) => (ofPairs pairs, rest)
  | n + 1, .sequenceStart :: rest =>
    if block then (blockItems? n rest).map fun (items, rest) => (list items, rest) else none
  | n + 1, .mappingStart :: rest =>
    if block then (blockPairs? n rest).map fun (pairs, rest) => (ofPairs pairs, rest) else none
  | n + 1, .blockEntry :: rest =>
    if flat then
      (flatItems? n (.blockEntry :: rest)).map fun (items, rest) => (list items, rest)
    else none
  | _ + 1, _ => none

def nodeUnless? (ended block flat : Bool) : Nat → List Token → Option (Yaml × List Token)
  | 0, _ => none
  | n + 1, tokens => if ended then some (null, tokens) else node? block flat n tokens

def valueOf? (ended : List Token → Bool) (block : Bool) :
    Nat → List Token → Option (Yaml × List Token)
  | 0, _ => none
  | n + 1, .value :: rest => nodeUnless? (ended rest) block block n rest
  | _ + 1, tokens => some (null, tokens)

def blockItems? : Nat → List Token → Option (List Yaml × List Token)
  | n + 1, .blockEntry :: rest => do
    let (item, rest) ← nodeUnless? (Token.endsBlockItem rest) true false n rest
    let (items, rest) ← blockItems? n rest
    return (item :: items, rest)
  | _ + 1, .blockEnd :: rest => some ([], rest)
  | _, _ => none

def flatItems? : Nat → List Token → Option (List Yaml × List Token)
  | 0, _ => none
  | n + 1, .blockEntry :: rest => do
    let (item, rest) ← nodeUnless? (Token.endsFlatItem rest) true false n rest
    let (items, rest) ← flatItems? n rest
    return (item :: items, rest)
  | _ + 1, tokens => some ([], tokens)

def blockPairs? : Nat → List Token → Option (List (Value × Yaml) × List Token)
  | n + 1, .key :: rest => do
    let (k, rest) ← nodeUnless? (Token.endsBlockPart rest) true true n rest
    let key ← keyOf? k
    let (v, rest) ← valueOf? Token.endsBlockPart true n rest
    let (pairs, rest) ← blockPairs? n rest
    return ((key, v) :: pairs, rest)
  | _ + 1, .blockEnd :: rest => some ([], rest)
  | _, _ => none

def flowItems? (first : Bool) : Nat → List Token → Option (List Yaml × List Token)
  | 0, _ => none
  | _ + 1, .flowSequenceEnd :: rest => some ([], rest)
  | n + 1, tokens => do
    let tokens ←
      if first then some tokens
      else match tokens with | .flowEntry :: rest => some rest | _ => none
    match tokens with
    | .flowSequenceEnd :: rest => return ([], rest)
    | .key :: rest =>
      let ended := Token.endsFlowItem rest || Token.startsValue rest
      let (k, rest) ← nodeUnless? ended false false n rest
      let key ← keyOf? k
      let (v, rest) ← valueOf? Token.endsFlowItem false n rest
      let (items, rest) ← flowItems? false n rest
      return (ofPairs [(key, v)] :: items, rest)
    | _ =>
      let (item, rest) ← node? false false n tokens
      let (items, rest) ← flowItems? false n rest
      return (item :: items, rest)

def flowPairs? (first : Bool) : Nat → List Token → Option (List (Value × Yaml) × List Token)
  | 0, _ => none
  | _ + 1, .flowMappingEnd :: rest => some ([], rest)
  | n + 1, tokens => do
    let tokens ←
      if first then some tokens
      else match tokens with | .flowEntry :: rest => some rest | _ => none
    match tokens with
    | .flowMappingEnd :: rest => return ([], rest)
    | .key :: rest =>
      let ended := Token.endsFlowPair rest || Token.startsValue rest
      let (k, rest) ← nodeUnless? ended false false n rest
      let key ← keyOf? k
      let (v, rest) ← valueOf? Token.endsFlowPair false n rest
      let (pairs, rest) ← flowPairs? false n rest
      return ((key, v) :: pairs, rest)
    | _ =>
      let (k, rest) ← node? false false n tokens
      let key ← keyOf? k
      let (pairs, rest) ← flowPairs? false n rest
      return ((key, null) :: pairs, rest)

end

def isDocumentEnd : Token → Bool
  | .documentEnd => true
  | _ => false

/-- The document of these tokens; no document at all is null. -/
def ofTokens? (tokens : List Token) : Option Yaml :=
  let fuel := 3 * tokens.length + 3
  let finish : Yaml × List Token → Option Yaml
    | (doc, rest) => if rest.all isDocumentEnd then some doc else none
  match tokens with
  | [] => some null
  | .documentStart :: rest =>
    match rest with
    | [] | .documentEnd :: _ => finish (null, rest)
    | _ => (node? true false fuel rest).bind finish
  | _ => (node? true false fuel tokens).bind finish

def read? : YamlReader := fun s => (tokens? s.toList).bind ofTokens?

end PackIndex.Yaml
