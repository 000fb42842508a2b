import Multimap.Json.Codec
import Multimap.Text.Inspection
import Multimap.Text.Plain
import Multimap.Workspace.Basic
import Multimap.Workspace.Command

/-!
# Carrying out commands

`Workspace.execute` carries out a command: it logs what there is to log, reports, and leaves a
workspace. A command that fails leaves the workspace as it was. A request that a map refuses is no
such failure: the map answers it, and is reported like any other.
-/

namespace Multimap

variable {K V : Type} [Ord K]

/-- Makes the map. A store comes under the policy that drops. -/
def Origin.make [MemberName K] [JsonValue V] :
    Origin K V → Logged (Except Failure (Multimap K V (Policy V)))
  | empty a p => return .ok (Multimap.empty a p)
  | store a entries => do
    return (← ofStore? .drop (entries.map (Store.ofEntries a))).mapError .argument
  | pairs a p ps => return .ok (← ofPairs a p ps)
  | json a p text => return (← ofJson a p text).mapError .unreadable

/-- What a store says of itself and of a key. -/
def Store.facts (s : Store K V) (k : K) : Reply K V :=
  .storeFacts s.size s.isEmpty (s.contains k)

/-- The text of a map, in whose place there is a failure if it has none. -/
def Form.write [Plain K] [Plain V] [InspectKey K] [Inspect V] [MemberName K] [JsonValue V]
    (m : Multimap K V (Policy V)) : Form → Reply K V
  | plain => .text (String.ofList (Multimap.plain m))
  | line => .text (String.ofList (inspect m).line)
  | block => .text (String.ofList ((inspect m).block 0))
  | json => m.toJson?.elim (.failure .unnamedKey) .text

/-- The operations that only read a map. -/
def Operation.isQuery {P : Type} : Operation K V P → Bool
  | query _ => true
  | _ => false

/-- Whether two maps feed a hasher the same. -/
def sameHash [HashInput K] (hashing : Option (HashInput V)) (m n : Multimap K V (Policy V)) :
    Reply K V :=
  match hashing with
  | some _ => .answer (.truth (hashItems m = hashItems n))
  | none => .failure .unhashed

variable [BEq V] [Plain K] [Plain V] [InspectKey K] [Inspect V] [MemberName K] [JsonValue V]
  [HashInput K]

namespace Workspace

/-- What comes of a command. -/
structure Outcome (K V : Type) where
  report : Report K V
  workspace : Workspace K V

/-- A reply with which the workspace stays as it is. -/
def reply (w : Workspace K V) (r : Reply K V) : Outcome K V := ⟨⟨r, none⟩, w⟩

/-- A reply, and a map that goes into a slot. -/
def settle (w : Workspace K V) (slot : String) (r : Reply K V) (m : Multimap K V (Policy V)) :
    Outcome K V :=
  ⟨⟨r, some m.listing⟩, w.put slot m⟩

/-- A reply about the map in a slot. -/
def tell (w : Workspace K V) (slot : String) (f : Multimap K V (Policy V) → Reply K V) :
    Outcome K V :=
  w.reply ((w.get? slot).elim (.failure .noMap) f)

/-- A reply about the maps in two slots. -/
def tellBoth (w : Workspace K V) (slot other : String)
    (f : Multimap K V (Policy V) → Multimap K V (Policy V) → Reply K V) : Outcome K V :=
  w.reply (((w.get? slot).bind fun m => (w.get? other).map (f m)).getD (.failure .noMap))

/-- Makes both of the requests that are refused. -/
def refusals (K V : Type) [Ord K] (k : K) : Logged (List ArgumentError) := do
  let made ← ofStore? () (none : Option (Store K V))
  let (appended, _) ← (Multimap.empty .arrival .drop : Multimap K V (Policy V)).appendAll? k none
  let cause {α : Type} : Except ArgumentError α → List ArgumentError
    | .error e => [e]
    | .ok _ => []
  return cause made ++ cause appended

/-- Carries out a command. `hashing` says how values are hashed, if they are. -/
def execute (hashing : Option (HashInput V)) (w : Workspace K V) :
    Command K V → Logged (Outcome K V)
  | .create slot origin policy => do
    match ← origin.make with
    | .ok m => return w.settle slot (.answer .done) (policy.elim m m.withPolicy)
    | .error f => return w.reply (.failure f)
  | .copy slot source =>
    match w.get? source with
    | some m => return w.settle slot (.answer .done) m
    | none => return w.reply (.failure .noMap)
  | .unwrap slot =>
    match w.get? slot with
    | some m => return w.settle slot (.answer .done) (m.withPolicy .drop)
    | none => return w.reply (.failure .noMap)
  | .consume slot => return { w.tell slot (.entries ·.listing) with workspace := w.vacate slot }
  | .operate slot operation =>
    match w.get? slot with
    | some m => do
      let (a, m) ← operation.run m
      return if operation.isQuery then w.reply (.answer a) else w.settle slot (.answer a) m
    | none => return w.reply (.failure .noMap)
  | .keys slot => return w.tell slot fun m => .keys (m.listing.map (·.1))
  | .sequences slot => return w.tell slot fun m => .sequences (m.listing.map (·.2))
  | .entries slot => return w.tell slot (.entries ·.listing)
  | .storeFacts slot k => return w.tell slot (·.store.facts k)
  | .equal slot other => return w.tellBoth slot other fun m n => .answer (.truth (m == n))
  | .equalUpToOrder slot other =>
    return w.reply ((w.equalUpToOrder? slot other).elim (.failure .noMap) (.answer <| .truth ·))
  | .sameHash slot other => return w.tellBoth slot other (sameHash hashing)
  | .refusals k => return w.reply (.refusals (← refusals K V k))
  | .policy slot => return w.tell slot (.policy ·.policy)
  | .text slot form => return w.tell slot form.write

end Workspace

end Multimap
