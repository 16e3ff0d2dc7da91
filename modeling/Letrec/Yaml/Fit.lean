import Letrec.Text.Basic
import Letrec.Yaml.Graph
import Letrec.Yaml.Schema

/-!
# Fitting a document into a schema

Every node is taken as what the schema says it is. Nodes that do not fit are collected; a few faults
end the work at once. A mapping may take entries from others with the key `<<`: its own entries come
first, and of several others the earlier.
-/

namespace Letrec.Yaml

namespace Fit

structure Progress where
  misfits : List Misfit := []
  visits : Nat := 1
  aliasVisits : Nat := 0

abbrev Fitting := StateT Progress (Except Unfit)

def report (m : Misfit) : Fitting Unit := modify fun s => { s with misfits := s.misfits ++ [m] }

/-- Whether aliases make up too much of a document: 99 percent of a small one, and less the larger
it is, down to ten percent. -/
def isInflated (visits aliasVisits : Nat) : Bool :=
  let large := min visits 4000000 - 400000
  aliasVisits > 100 && visits > 1000 && aliasVisits * 360000000 > visits * (356400000 - 89 * large)

def visit (throughAlias : Bool) : Fitting Unit := do
  let s ← get
  let visits := s.visits + 1
  let aliasVisits := if throughAlias then s.aliasVisits + 1 else s.aliasVisits
  set { s with visits, aliasVisits }
  if isInflated visits aliasVisits then throw .tooManyAliases

def wrongKind (n : Node) (schema : Schema) : Fitting Unit :=
  report (.wrongKind n.line n.tag n.text schema.name)

/-- What a scalar means under its tag. Tags outside the core schema leave it a text. -/
def scalarOf (tag : Tag) (text : String) : Except Unfit Scalar :=
  if tag = .binary then
    match Text.base64? text with
    | some bytes => .ok (((String.fromUTF8? bytes).map .text).getD (.binary bytes.toList))
    | none => .error .notBase64
  else if [.null, .bool, .int, .float, .timestamp].contains tag then
    let found := Scalar.ofText (tag = .timestamp) text
    match found with
    | .int n =>
      if tag = .int then .ok found
      else if tag = .float && Number.fitsInt64 n then .ok (.float (Number.Binary64.ofInt n))
      else .error (.wrongTag found.tag text tag)
    | _ => if found.tag = tag then .ok found else .error (.wrongTag found.tag text tag)
  else .ok (.text text)

/-- A number without its fraction. One below the range of 64 bits counts as the least number, and so
does the number just above the range. -/
def wholeOf? : Scalar → Option Int
  | .int n => if Number.fitsInt64 n then some n else none
  | .float x =>
    let n := x.truncate
    if n > Int64.maxValue.toInt + 1 then none
    else some (if Number.fitsInt64 n then n else Int64.minValue.toInt)
  | .infinity true => some Int64.minValue.toInt
  | _ => none

def truthOf? : Scalar → Option Bool
  | .bool b => some b
  | .text s =>
    if ["y", "Y", "yes", "Yes", "YES", "on", "On", "ON"].contains s then some true
    else if ["n", "N", "no", "No", "NO", "off", "Off", "OFF"].contains s then some false
    else none
  | _ => none

def fitScalar (n : Node) (schema : Schema) : Fitting (Option Datum) := do
  let value ← scalarOf n.tag n.text
  if value = .null then return if schema.takesNull then some .null else none
  let schema := schema.required
  let fitted : Option Scalar :=
    match schema, value with
    | .any, value => some value
    | .text, .text s => some (.text s)
    | .text, .binary bytes => some (.binary bytes)
    | .text, _ => some (.text n.text)
    | .int _, value => (wholeOf? value).map .int
    | .bool, value => (truthOf? value).map .bool
    | _, _ => none
  match fitted with
  | some value => return some (.scalar value)
  | none =>
    wrongKind n schema
    return none

def isMerge (n : Node) : Bool :=
  n.shape == .scalar "<<" && n.tag = .merge

def repeatedKeys (g : Graph) (keys : List Nat) : List Misfit :=
  match keys with
  | [] => []
  | i :: rest =>
    let first := g.node i
    let again :=
      (rest.map g.node).filter fun n => sameKind first.shape n.shape && first.text == n.text
    again.map (fun n => .repeatedKey n.line n.text first.line) ++ repeatedKeys g rest
where
  sameKind : Shape → Shape → Bool
    | .scalar _, .scalar _ | .sequence _, .sequence _ | .mapping _, .mapping _ |
        .alias .., .alias .. => true
    | _, _ => false

def hasTextKeys (g : Graph) (entries : List (Nat × Nat)) : Bool :=
  entries.all fun (key, _) =>
    let tag := (g.node (g.follow key)).tag
    tag = .str || tag = .merge

abbrev Taken := Option (List Scalar)

structure Filling where
  entries : List (Scalar × Datum)
  taken : Taken
  met : List Scalar := []
  merge : Option Nat := none

def fitEntry (g : Graph)
    (child : Schema → Nat → Fitting (Option Datum)) (schema : Schema) (f : Filling)
    (entry : Nat × Nat) : Fitting Filling := do
  let (key, value) := entry
  if isMerge (g.node key) then return { f with merge := some value }
  let keySchema : Schema :=
    match schema with
    | .pairs => .any
    | _ => .text
  match ← child keySchema key with
  | none => return f
  | some (.scalar k) =>
    if (f.taken.getD []).any k.isSameKey then return f
    let f := { f with taken := f.taken.map (k :: ·) }
    match schema with
    | .record name fields =>
      let field := (Datum.scalar k).toText
      match fields.lookup field with
      | none =>
        report (.unknownField (g.node key).line (.ofBytes k.bytes) name)
        return f
      | some valueSchema =>
        if f.met.contains k then
          report (.repeatedField (g.node key).line field name)
          return f
        let f := { f with met := k :: f.met }
        match ← child valueSchema value with
        | some d => return { f with entries := Datum.put k d f.entries }
        | none => return f
    | _ =>
      match ← child .any value with
      | some d => return { f with entries := Datum.put k d f.entries }
      | none => return f
  | some d => throw (.collectionAsKey d.literal)

def mergeSources (g : Graph) (i : Nat) : List Nat :=
  match (g.node i).shape with
  | .sequence items => items
  | _ => [i]

def isMapping (g : Graph) (i : Nat) : Bool :=
  match (g.node (g.follow i)).shape with
  | .mapping _ => true
  | _ => false

/-- What a collection is fitted into. One with the tag of null is not taken as a value that is
there. -/
def schemaFor (n : Node) (schema : Schema) : Schema :=
  if n.tag = .null then schema else schema.required

/-- Fits the node `i`, which is reached through `aliases`, into a place that holds `held`; nothing
if it leaves the place as it is. -/
def fitNode (g : Graph) :
    (fuel : Nat) → (aliases : List Nat) → Schema → (held : Datum) → Taken → (i : Nat) →
    Fitting (Option Datum × Taken)
  | 0, _, _, _, _, _ => throw .endless
  | fuel + 1, aliases, schema, held, taken, i => do
    visit (!aliases.isEmpty)
    let n := g.node i
    let child (schema : Schema) (j : Nat) : Fitting (Option Datum) := do
      let (d, _) ← fitNode g fuel aliases schema .null none j
      return d
    match n.shape with
    | .alias anchor target =>
      if aliases.contains i then throw (.containsItself anchor)
      fitNode g fuel (i :: aliases) schema held taken target
    | .scalar _ => return (← fitScalar n schema, taken)
    | .sequence items =>
      let schema := schemaFor n schema
      let itemSchema? : Option Schema :=
        match schema with
        | .list item => some item
        | .any => some .any
        | _ => none
      match itemSchema? with
      | some itemSchema =>
        let fitted ← items.mapM (child itemSchema)
        return (some (.list (fitted.filterMap id)), taken)
      | none =>
        wrongKind n schema
        return (none, taken)
    | .mapping entries =>
      let keys := entries.map Prod.fst
      let again := repeatedKeys g keys
      if !again.isEmpty then
        again.forM report
        return (none, taken)
      let schema := schemaFor n schema
      let (entrySchema?, start) : Option Schema × List (Scalar × Datum) :=
        match schema with
        | .any => (some (if hasTextKeys g entries then .table else .pairs), [])
        | .table | .pairs | .record .. => (some schema, held.entries)
        | _ => (none, [])
      match entrySchema? with
      | none =>
        wrongKind n schema
        return (none, taken)
      | some entrySchema =>
        let byText :=
          match entrySchema with
          | .pairs => false
          | _ => true
        let f ← entries.foldlM (fitEntry g child entrySchema) { entries := start, taken }
        match f.merge with
        | none => return (some (.mapping byText f.entries), f.taken)
        | some source =>
          let mine ←
            match f.taken with
            | some keys => pure keys
            | none =>
              let found ← keys.mapM (child .any)
              pure (found.filterMap fun
                | some (.scalar k) => some k
                | _ => none)
          let (merged, taken) ← (mergeSources g source).foldlM
            (fun (acc : Datum × Taken) j => do
              if !isMapping g j then throw .notMergeable
              let (d, taken) ← fitNode g fuel aliases entrySchema acc.1 acc.2 j
              return (d.getD acc.1, taken))
            (.mapping byText f.entries, some mine)
          return (some merged, if f.taken.isSome then taken else none)

end Fit

def Graph.fit (g : Graph) (schema : Schema) : Except Unfit Datum := do
  let fuel := (g.nodes.size + 1) * (g.nodes.size + 1)
  let ((d, _), s) ← (Fit.fitNode g fuel [] schema .null none g.root).run {}
  if s.misfits.isEmpty then return d.getD .null else throw (.misfits s.misfits)

end Letrec.Yaml
