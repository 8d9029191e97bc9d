import NodeScript.Yaml.Layout

/-!
# Documents in YAML texts

The values that the tokens of a text stand for.
-/

namespace NodeScript.Yaml

/-- The fields of a mapping read so far, and what follows them. -/
abbrev FieldsAndRest := List (Yaml × Yaml) × List Token

/-- Whether a block has no value between a colon or question mark and what follows. -/
def lacksBlockValue : List Token → Bool
  | .key :: _ => true
  | .value :: _ => true
  | .blockEnd :: _ => true
  | _ => false

/-- Whether a flow collection has no value before what follows. -/
def lacksFlowValue : List Token → Bool
  | .flowEntry :: _ => true
  | .flowMappingEnd :: _ => true
  | .flowSequenceEnd :: _ => true
  | _ => false

mutual

/-- The value that begins the tokens. Only where `blocks` are allowed can it be a block, and only
where `bare` ones are allowed a sequence without a start and an end. A few rounds at most are
needed for a token, so `limit` is a multiple of their count. -/
def node? (blocks bare : Bool) : (limit : Nat) → List Token → Option (Yaml × List Token)
  | 0, _ => none
  | limit + 1, tokens =>
    match tokens with
    | .plain text :: rest => some (ofPlain (String.ofList text), rest)
    | .quoted text :: rest => some (.str (String.ofList text), rest)
    | .flowSequenceStart :: rest => flowItems? limit [] rest
    | .flowMappingStart :: rest => flowFields? limit [] rest
    | .blockSequenceStart :: rest => if blocks then blockItems? limit [] rest else none
    | .blockMappingStart :: rest => if blocks then blockFields? limit [] rest else none
    | .blockEntry :: _ => if bare then bareItems? limit [] tokens else none
    | _ => none

/-- The items of a block sequence up to its end; `done` holds those before. -/
def blockItems? : (limit : Nat) → (done : List Yaml) → List Token → Option (Yaml × List Token)
  | 0, _, _ => none
  | limit + 1, done, tokens =>
    match tokens with
    | .blockEnd :: rest => some (.seq done, rest)
    | .blockEntry :: .blockEntry :: rest =>
      blockItems? limit (done ++ [.null]) (.blockEntry :: rest)
    | .blockEntry :: .blockEnd :: rest => blockItems? limit (done ++ [.null]) (.blockEnd :: rest)
    | .blockEntry :: rest =>
      match node? true false limit rest with
      | some (v, rest) => blockItems? limit (done ++ [v]) rest
      | none => none
    | _ => none

/-- The items of a block sequence that has its hyphens at the column of the mapping around it;
`done` holds those before. -/
def bareItems? : (limit : Nat) → (done : List Yaml) → List Token → Option (Yaml × List Token)
  | 0, _, _ => none
  | limit + 1, done, tokens =>
    match tokens with
    | .blockEntry :: .blockEntry :: rest =>
      bareItems? limit (done ++ [.null]) (.blockEntry :: rest)
    | .blockEntry :: rest =>
      if lacksBlockValue rest then bareItems? limit (done ++ [.null]) rest
      else
        match node? true false limit rest with
        | some (v, rest) => bareItems? limit (done ++ [v]) rest
        | none => none
    | _ => some (.seq done, tokens)

/-- A key or a value of a block mapping, or null where there is none. -/
def blockPart? : (limit : Nat) → List Token → Option (Yaml × List Token)
  | 0, _ => none
  | limit + 1, tokens =>
    if lacksBlockValue tokens then some (.null, tokens) else node? true true limit tokens

/-- The fields of a block mapping up to its end; `done` holds those before. -/
def blockFields? : (limit : Nat) → (done : List (Yaml × Yaml)) → List Token →
    Option (Yaml × List Token)
  | 0, _, _ => none
  | limit + 1, done, tokens =>
    let key : Option (Yaml × List Token) := match tokens with
      | .key :: rest => blockPart? limit rest
      | .value :: _ => some (.null, tokens)
      | _ => none
    match tokens, key with
    | .blockEnd :: rest, _ => some (.map done, rest)
    | _, none => none
    | _, some (k, rest) =>
      let value : Option (Yaml × List Token) := match rest with
        | .value :: rest => blockPart? limit rest
        | _ => some (.null, rest)
      match value with
      | none => none
      | some (v, rest) =>
        match addField? done k v with
        | some done => blockFields? limit done rest
        | none => none

/-- The items of a flow sequence up to its end; `done` holds those before. A key begins a mapping of
one field; a mark that stands in the place of that key is taken for it. -/
def flowItems? : (limit : Nat) → (done : List Yaml) → List Token → Option (Yaml × List Token)
  | 0, _, _ => none
  | limit + 1, done, tokens =>
    let item : Option (Yaml × List Token) := match tokens with
      | .key :: rest =>
        let key : Option (Yaml × List Token) := match rest with
          | .value :: rest => some (.null, rest)
          | .flowEntry :: rest => some (.null, rest)
          | .flowSequenceEnd :: rest => some (.null, rest)
          | _ => node? false false limit rest
        match key with
        | none => none
        | some (k, rest) => (flowValue? limit rest).map fun (v, rest) => (.map [(k, v)], rest)
      | _ => node? false false limit tokens
    match tokens, item with
    | .flowSequenceEnd :: rest, _ => some (.seq done, rest)
    | _, some (v, .flowSequenceEnd :: rest) => some (.seq (done ++ [v]), rest)
    | _, some (v, .flowEntry :: rest) => flowItems? limit (done ++ [v]) rest
    | _, _ => none

/-- The value of a field in a flow collection, with the colon before it, or null where there is
none. -/
def flowValue? : (limit : Nat) → List Token → Option (Yaml × List Token)
  | 0, _ => none
  | limit + 1, tokens =>
    match tokens with
    | .value :: rest =>
      if lacksFlowValue rest then some (.null, rest) else node? false false limit rest
    | _ => some (.null, tokens)

/-- The fields of a flow mapping up to its end; `done` holds those before. A value without a key
belongs to null, and a key without a value has null. -/
def flowFields? : (limit : Nat) → (done : List (Yaml × Yaml)) → List Token →
    Option (Yaml × List Token)
  | 0, _, _ => none
  | limit + 1, done, tokens =>
    let key : Option (Yaml × List Token) := match tokens with
      | .key :: .value :: rest => some (.null, .value :: rest)
      | .key :: rest => if lacksFlowValue rest then some (.null, rest)
        else node? false false limit rest
      | .value :: _ => some (.null, tokens)
      | _ => node? false false limit tokens
    match tokens, key with
    | .flowMappingEnd :: rest, _ => some (.map done, rest)
    | _, none => none
    | _, some (k, rest) =>
      match flowValue? limit rest with
      | none => none
      | some (v, rest) =>
        match addField? done k v, rest with
        | some done, .flowMappingEnd :: rest => some (.map done, rest)
        | some done, .flowEntry :: rest => flowFields? limit done rest
        | _, _ => none

end

/-- The value of a document, or null where it has none. -/
def content? (tokens : List Token) : Option (Yaml × List Token) :=
  match tokens with
  | [] => some (.null, tokens)
  | .documentStart :: _ => some (.null, tokens)
  | .documentEnd :: _ => some (.null, tokens)
  | _ => node? true false (4 * tokens.length + 4) tokens

/-- The documents of the tokens; `done` holds those before. A document needs no mark at its start
when it is the first or comes after a mark at the end of another, which `bare` tells. Every round
reads a token, so `limit` is more than their count. -/
def documentsFrom? : (limit : Nat) → (bare : Bool) → (done : List Yaml) → List Token →
    Option (List Yaml)
  | 0, _, _, _ => none
  | limit + 1, bare, done, tokens =>
    match tokens with
    | [] => some done
    | .documentEnd :: rest => documentsFrom? limit true done rest
    | _ =>
      let document : Option (Yaml × List Token) := match tokens with
        | .documentStart :: rest => content? rest
        | _ => if bare then node? true false (4 * tokens.length + 4) tokens else none
      match document with
      | some (v, rest) => documentsFrom? limit false (done ++ [v]) rest
      | none => none

def read? (text : String) : Option (List Yaml) :=
  (tokens? text).bind fun tokens => documentsFrom? (tokens.length + 1) true [] tokens

end NodeScript.Yaml
