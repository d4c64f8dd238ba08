import Tickflow.Proofs.CycleSearch
import Tickflow.Proofs.Layout
/-! # What compiling accepts

The checks are stated on the definition itself, item by item with the items listed before it:
nodes first, then connections, then the data cycle and the unwired outputs. `compile` makes them
on the state it builds, and the first failing check is the error it reports.
-/
namespace Tickflow

namespace Graph

def kindOf? (reg : Registry) (g : Graph) (id : Uuid) : Option NodeKind :=
  (g.findNode? id).bind fun spec => lookupMember spec.nodeType reg.types

/-- The type of pin `pin` of the node with identifier `id`. -/
def pinType? (reg : Registry) (g : Graph) (id : Uuid) (pin : Nat) : Option PinType :=
  (g.kindOf? reg id).bind fun kind => kind.pins[pin]?

/-- The first check a node fails, given the nodes listed before it: a new identifier, a
registered type, at most `maxPins` pins, a configuration the type accepts, and an index, the
number of nodes before it, below the end marker. -/
def nodeFault? (reg : Registry) (before : List NodeSpec) (spec : NodeSpec) : Option DefinitionError :=
  if before.any (·.id == spec.id) then some (.duplicateNode spec.id)
  else match lookupMember spec.nodeType reg.types with
    | none => some (.unknownNodeType spec.nodeType)
    | some kind =>
      if maxPins < kind.pins.length then some (.tooManyPins spec.nodeType kind.pins.length maxPins)
      else match kind.validate spec.config with
        | .error e => some (.invalidConfig spec.id e)
        | .ok () => if nodeIndexEnd ≤ before.length then some .nodeIndexLimit else none

/-- The first check a connection of `g` fails, given the connections listed before it: a node
at the source, then at the target, the source pin, then the target pin, an output at the
source, an input at the target, one kind at both ends, and a data input fed by no earlier
connection. -/
def connectionFault? (reg : Registry) (g : Graph) (before : List Connection) (c : Connection) :
    Option DefinitionError :=
  if (g.findNode? c.fromNode).isNone then some (.nodeNotFound c.fromNode)
  else if (g.findNode? c.toNode).isNone then some (.nodeNotFound c.toNode)
  else match g.pinType? reg c.fromNode c.fromPin,g.pinType? reg c.toNode c.toPin with
    | none,_ => some (.pinOutOfRange c.fromNode c.fromPin)
    | some _,none => some (.pinOutOfRange c.toNode c.toPin)
    | some src,some dst =>
      if src.direction ≠ .output then some (.pinMismatch c.fromNode c.fromPin ⟨src.kind,.output⟩ src)
      else if dst.direction ≠ .input then some (.pinMismatch c.toNode c.toPin ⟨dst.kind,.input⟩ dst)
      else if src.kind ≠ dst.kind then some (.kindMismatch c.toNode src.kind dst.kind)
      else if src.kind = .data ∧ before.any (fun b => b.toNode == c.toNode && b.toPin == c.toPin) then
        some (.dataInputAlreadyWired c.toNode c.toPin)
      else none

end Graph

/-- The first failure of `check` over a list, each item checked against `before` and the items
listed before it. -/
def firstFault? {α : Type} (check : List α → α → Option DefinitionError) : List α → List α → Option DefinitionError
  | _,[] => none
  | before,x :: rest => (check before x).orElse fun _ => firstFault? check (before ++ [x]) rest

namespace Graph

/-- The first failing check of a node, else of a connection. -/
def itemFault? (reg : Registry) (g : Graph) : Option DefinitionError :=
  (firstFault? (nodeFault? reg) [] g.nodes).orElse fun _ => firstFault? (g.connectionFault? reg) [] g.connections

def carries (reg : Registry) (g : Graph) (c : Connection) : Option PinKind :=
  (g.pinType? reg c.fromNode c.fromPin).map (·.kind)

/-- A connection of `g` carries data from the node `a` to the node `b`. -/
def DataFeeds (reg : Registry) (g : Graph) (a b : Uuid) : Prop :=
  ∃ c ∈ g.connections, c.fromNode = a ∧ c.toNode = b ∧ g.carries reg c = some .data

/-- No node is fed data by itself, directly or through others. -/
def DataAcyclic (reg : Registry) (g : Graph) : Prop := ∀ a, ¬ Relation.TransGen (g.DataFeeds reg) a a

/-- Whether a connection of `g` leaves pin `pin` of the node with identifier `id`. -/
def wiredFrom (g : Graph) (id : Uuid) (pin : Nat) : Bool :=
  g.connections.any fun c => c.fromNode == id && c.fromPin == pin

/-- The first node with a flow output that no connection leaves, and the first such output's
pin. -/
def unwiredOutput? (reg : Registry) (g : Graph) : Option (Uuid × Nat) :=
  g.nodes.findSome? fun spec =>
    match lookupMember spec.nodeType reg.types with
    | none => none
    | some kind => (kind.flowOutputs.find? fun pin => !g.wiredFrom spec.id pin).map (spec.id,·)

end Graph

namespace CompiledGraph

/-! ## Nodes -/

/-- A node as checking lays it out: its definition, the registered type of its type name, that
type's flow outputs, no target yet and no data source. -/
structure Fresh (reg : Registry) (spec : NodeSpec) (n : CompiledNode) : Prop where
  spec_eq : n.spec = spec
  kind : lookupMember spec.nodeType reg.types = some n.kind
  flowOutputs : n.flowOutputs = n.kind.flowOutputs
  targets : n.targets = List.replicate n.flowOutputs.length []
  dataSources : n.dataSources = []

theorem compileNode_verdict {reg : Registry} {seen : List Uuid} {before : List NodeSpec} {spec : NodeSpec}
    (hseen : spec.id ∈ seen ↔ ∃ n ∈ before, n.id = spec.id) (hlen : seen.length = before.length) :
    (∀ e, Graph.nodeFault? reg before spec = some e → compileNode reg seen spec = .error e) ∧
      (Graph.nodeFault? reg before spec = none → ∃ n, compileNode reg seen spec = .ok n ∧ Fresh reg spec n) := by
  have hdup : before.any (·.id == spec.id) = seen.contains spec.id := by
    rw [Bool.eq_iff_iff,List.any_eq_true,List.contains_iff_mem,hseen]
    simp
  unfold Graph.nodeFault? compileNode
  rw [hdup]
  by_cases hs : seen.contains spec.id = true
  · simp only [hs,if_true]
    exact ⟨fun e he => (by cases he; rfl),fun h => (by cases h)⟩
  · simp only [hs,Bool.false_eq_true,if_false]
    cases hk : lookupMember spec.nodeType reg.types with
    | none =>
      simp only [Registry.resolve,hk]
      exact ⟨fun e he => (by cases he; rfl),fun h => (by cases h)⟩
    | some kind =>
      simp only [Registry.resolve,hk,bind,Except.bind]
      by_cases hp : maxPins < kind.pins.length
      · simp only [hp,if_true]
        exact ⟨fun e he => (by cases he; rfl),fun h => (by cases h)⟩
      · simp only [hp,if_false]
        cases hv : kind.validate spec.config with
        | error ce => exact ⟨fun e he => (by cases he; rfl),fun h => (by cases h)⟩
        | ok u =>
          simp only [hlen]
          by_cases hl : nodeIndexEnd ≤ before.length
          · simp only [hl,if_true]
            exact ⟨fun e he => (by cases he; rfl),fun h => (by cases h)⟩
          · simp only [hl,if_false]
            exact ⟨fun e he => (by cases he),fun _ => ⟨_,rfl,⟨rfl,hk,rfl,rfl,rfl⟩⟩⟩

theorem compileNodes_verdict (reg : Registry) :
    ∀ (specs : List NodeSpec) (seen : List Uuid) (before : List NodeSpec),
      (∀ id, id ∈ seen ↔ ∃ n ∈ before, n.id = id) → seen.length = before.length →
      (∀ e, firstFault? (Graph.nodeFault? reg) before specs = some e → compileNodes reg seen specs = .error e) ∧
        (firstFault? (Graph.nodeFault? reg) before specs = none →
          ∃ ns, compileNodes reg seen specs = .ok ns ∧ List.Forall₂ (Fresh reg) specs ns)
  | [],_,_,_,_ => ⟨fun e he => (by cases he),fun _ => ⟨[],rfl,List.Forall₂.nil⟩⟩
  | spec :: rest,seen,before,hseen,hlen => by
    obtain ⟨herr,hok⟩ := @compileNode_verdict reg seen before spec (hseen spec.id) hlen
    have hseen' : ∀ id, id ∈ spec.id :: seen ↔ ∃ n ∈ before ++ [spec], n.id = id := by
      intro id
      rw [List.mem_cons,hseen id]
      simp only [List.mem_append,List.mem_singleton]
      constructor
      · rintro (rfl | ⟨n,hn,rfl⟩)
        · exact ⟨spec,Or.inr rfl,rfl⟩
        · exact ⟨n,Or.inl hn,rfl⟩
      · rintro ⟨n,hn | rfl,rfl⟩
        · exact Or.inr ⟨n,hn,rfl⟩
        · exact Or.inl rfl
    obtain ⟨herr',hok'⟩ := compileNodes_verdict reg rest (spec.id :: seen) (before ++ [spec]) hseen'
      (by simp [hlen])
    simp only [firstFault?,compileNodes]
    cases hf : Graph.nodeFault? reg before spec with
    | some e =>
      rw [herr e hf]
      exact ⟨fun e' he' => (by cases he'; rfl),fun h => (by cases h)⟩
    | none =>
      obtain ⟨n,hn,hfresh⟩ := hok hf
      rw [hn]
      simp only [Option.orElse_none]
      refine ⟨fun e he => ?_,fun h => ?_⟩
      · show (compileNodes reg (spec.id :: seen) rest >>= fun ns => pure (n :: ns)) = .error e
        rw [herr' e he]
        rfl
      · obtain ⟨ns,hns,hall⟩ := hok' h
        refine ⟨n :: ns,?_,List.Forall₂.cons hfresh hall⟩
        show (compileNodes reg (spec.id :: seen) rest >>= fun ns => pure (n :: ns)) = .ok (n :: ns)
        rw [hns]
        rfl

/-! ## Connections -/

end CompiledGraph

namespace Graph

def position? (g : Graph) (id : Uuid) : Option Nat := g.nodes.findIdx? (·.id == id)

theorem position?_spec {g : Graph} {id : Uuid} {i : Nat} (h : g.position? id = some i) :
    ∃ spec, g.nodes[i]? = some spec ∧ spec.id = id := by
  obtain ⟨hi,hid,-⟩ := List.findIdx?_eq_some_iff_getElem.mp h
  exact ⟨g.nodes[i],List.getElem?_eq_getElem hi,by simpa using hid⟩

theorem position?_lt {g : Graph} {id : Uuid} {i : Nat} (h : g.position? id = some i) : i < g.nodes.length :=
  (List.findIdx?_eq_some_iff_getElem.mp h).1

theorem findNode?_of_position? {g : Graph} {id : Uuid} {i : Nat} (h : g.position? id = some i) :
    g.findNode? id = g.nodes[i]? := by
  obtain ⟨-,hfi⟩ := List.findIdx?_eq_some_iff_findIdx_eq.mp h
  rw [findNode?,List.find?_eq_getElem?_findIdx,hfi]

theorem findNode?_of_position?_none {g : Graph} {id : Uuid} (h : g.position? id = none) : g.findNode? id = none := by
  rw [findNode?,List.find?_eq_none]
  intro x hx
  simp [List.findIdx?_eq_none_iff.mp h x hx]

theorem position?_of_getElem? {g : Graph} (hnd : (g.nodes.map (·.id)).Nodup) {i : Nat} {spec : NodeSpec}
    (h : g.nodes[i]? = some spec) : g.position? spec.id = some i := by
  obtain ⟨hi,rfl⟩ := List.getElem?_eq_some_iff.mp h
  refine List.findIdx?_eq_some_iff_getElem.mpr ⟨hi,by simp,fun j hji => ?_⟩
  have hj : j < g.nodes.length := by omega
  have hne : g.nodes[j].id ≠ g.nodes[i].id := by
    have := List.pairwise_iff_getElem.mp hnd j i (by simpa using hj) (by simpa using hi) hji
    simpa using this
  simpa using hne

end Graph

namespace CompiledGraph

/-- A node laid out from `spec` and wired by the connections `done`: its definition and
registered type, its type's flow outputs, no target yet, and a data source at each input that a
connection of `done` feeds with data. -/
structure Fed (reg : Registry) (g : Graph) (done : List Connection) (spec : NodeSpec) (n : CompiledNode) :
    Prop where
  spec_eq : n.spec = spec
  kind : lookupMember spec.nodeType reg.types = some n.kind
  flowOutputs : n.flowOutputs = n.kind.flowOutputs
  targets : n.targets = List.replicate n.flowOutputs.length []
  sources : ∀ p, (n.dataSources.find? (·.1 == p)).isSome = true ↔
    ∃ b ∈ done, b.toNode = spec.id ∧ b.toPin = p ∧ g.carries reg b = some .data

/-- What wiring the connections `done` of `g` leaves: at each position a node laid out from the
node of `g` there and fed by `done`; every connection of `done` joins two pins of one kind; a
data edge between the positions of the ends of each data connection; and a flow wire from each
flow connection's source position and output ordinal. -/
structure Tracks (reg : Registry) (g : Graph) (done : List Connection) (w : Wiring) : Prop where
  size_eq : w.nodes.size = g.nodes.length
  node : ∀ (i : Nat) (n : CompiledNode), w.nodes[i]? = some n → ∃ spec, g.nodes[i]? = some spec ∧ Fed reg g done spec n
  joins : ∀ b ∈ done, ∃ src dst, g.pinType? reg b.fromNode b.fromPin = some src ∧
    g.pinType? reg b.toNode b.toPin = some dst ∧ src.kind = dst.kind
  dataEdges : ∀ e, e ∈ w.dataEdges ↔ ∃ b ∈ done, g.carries reg b = some .data ∧
    g.position? b.fromNode = some e.1 ∧ g.position? b.toNode = some e.2
  flowWires : ∀ i o, (∃ fw ∈ w.flowWires, fw.1 = i ∧ fw.2.1 = o) ↔ ∃ b ∈ done, g.carries reg b = some .flow ∧
    g.position? b.fromNode = some i ∧ ∃ kind, g.kindOf? reg b.fromNode = some kind ∧ kind.flowOutputs.idxOf b.fromPin = o

theorem Tracks.init {reg : Registry} {g : Graph} {ns : List CompiledNode} (h : List.Forall₂ (Fresh reg) g.nodes ns) :
    Tracks reg g [] { nodes := ns.toArray } where
  size_eq := by simp [h.length_eq]
  node i n hn := by
    rw [List.getElem?_toArray] at hn
    obtain ⟨hi,rfl⟩ := List.getElem?_eq_some_iff.mp hn
    have hi' : i < g.nodes.length := by rw [h.length_eq]; exact hi
    have hf : Fresh reg g.nodes[i] ns[i] := h.get hi' hi
    refine ⟨g.nodes[i],List.getElem?_eq_getElem hi',hf.spec_eq,hf.kind,hf.flowOutputs,hf.targets,fun p => ?_⟩
    rw [hf.dataSources]
    simp
  joins b hb := absurd hb List.not_mem_nil
  dataEdges e := by simp
  flowWires i o := by simp

variable {reg : Registry} {g : Graph} {done : List Connection} {w : Wiring}

theorem Tracks.specs (ht : Tracks reg g done w) : w.nodes.toList.map (·.spec) = g.nodes := by
  refine List.ext_getElem? fun i => ?_
  rw [List.getElem?_map,Array.getElem?_toList]
  cases hn : w.nodes[i]? with
  | none =>
    have hi : g.nodes.length ≤ i := by
      rw [← ht.size_eq]
      exact Array.getElem?_eq_none_iff.mp hn
    rw [List.getElem?_eq_none hi]
    rfl
  | some n =>
    obtain ⟨spec,hs,hf⟩ := ht.node i n hn
    rw [hs]
    exact congrArg some hf.spec_eq

theorem Tracks.findIdx?_eq (ht : Tracks reg g done w) (id : Uuid) :
    w.nodes.findIdx? (·.spec.id == id) = g.position? id := by
  rw [Graph.position?,← ht.specs,List.findIdx?_map,← List.findIdx?_toArray,Array.toArray_toList]
  rfl

theorem Tracks.pinAt_eq (ht : Tracks reg g done w) {id : Uuid} {i : Nat} (hpos : g.position? id = some i)
    (pin : Nat) : pinAt w.nodes i id pin = match g.pinType? reg id pin with
      | some p => .ok p
      | none => .error (.pinOutOfRange id pin) := by
  have hi : i < w.nodes.size := by rw [ht.size_eq]; exact Graph.position?_lt hpos
  obtain ⟨spec,hs,hf⟩ := ht.node i w.nodes[i] (Array.getElem?_eq_getElem hi)
  have hpin : g.pinType? reg id pin = w.nodes[i].kind.pins[pin]? := by
    rw [Graph.pinType?,Graph.kindOf?,Graph.findNode?_of_position? hpos,hs]
    simp [hf.kind]
  rw [hpin,pinAt,Array.getElem?_eq_getElem hi]
  rfl

theorem Fed.extend {spec : NodeSpec} {n n' : CompiledNode} {c : Connection} (hf : Fed reg g done spec n)
    (hspec : n'.spec = n.spec) (hkind : n'.kind = n.kind) (hout : n'.flowOutputs = n.flowOutputs)
    (htargets : n'.targets = n.targets)
    (hsrc : ∀ p, (n'.dataSources.find? (·.1 == p)).isSome = true ↔
      (n.dataSources.find? (·.1 == p)).isSome = true ∨ (c.toNode = spec.id ∧ c.toPin = p ∧ g.carries reg c = some .data)) :
    Fed reg g (done ++ [c]) spec n' where
  spec_eq := hspec.trans hf.spec_eq
  kind := by
    rw [hkind]
    exact hf.kind
  flowOutputs := by
    rw [hout,hkind]
    exact hf.flowOutputs
  targets := by
    rw [htargets,hout]
    exact hf.targets
  sources p := by
    rw [hsrc,hf.sources]
    simp only [List.mem_append,List.mem_singleton]
    constructor
    · rintro (⟨b,hb,h⟩ | h)
      · exact ⟨b,Or.inl hb,h⟩
      · exact ⟨c,Or.inr rfl,h⟩
    · rintro ⟨b,hb | rfl,h⟩
      · exact Or.inl ⟨b,hb,h⟩
      · exact Or.inr h

theorem isSome_find?_fst {β : Type} (l : List (Nat × β)) (p : Nat) :
    (l.find? (·.1 == p)).isSome = true ↔ ∃ x ∈ l, x.1 = p := by
  simp [List.find?_isSome]

theorem Tracks.kindOf? (ht : Tracks reg g done w) {id : Uuid} {i : Nat} (hpos : g.position? id = some i)
    {n : CompiledNode} (hn : w.nodes[i]? = some n) : g.kindOf? reg id = some n.kind := by
  obtain ⟨spec,hs,hf⟩ := ht.node i n hn
  rw [Graph.kindOf?,Graph.findNode?_of_position? hpos,hs]
  exact hf.kind

theorem Tracks.joins_concat (ht : Tracks reg g done w) {c : Connection} {src dst : PinType}
    (hs : g.pinType? reg c.fromNode c.fromPin = some src) (hd : g.pinType? reg c.toNode c.toPin = some dst)
    (hk : src.kind = dst.kind) :
    ∀ b ∈ done ++ [c], ∃ src dst, g.pinType? reg b.fromNode b.fromPin = some src ∧
      g.pinType? reg b.toNode b.toPin = some dst ∧ src.kind = dst.kind := by
  intro b hb
  rcases List.mem_append.mp hb with hb | hb
  · exact ht.joins b hb
  · rw [List.mem_singleton.mp hb]
    exact ⟨src,dst,hs,hd,hk⟩

theorem Tracks.flow (ht : Tracks reg g done w) {c : Connection} {i j : Nat} {src dst : PinType}
    (hi : g.position? c.fromNode = some i) (hj : g.position? c.toNode = some j)
    (hs : g.pinType? reg c.fromNode c.fromPin = some src) (hd : g.pinType? reg c.toNode c.toPin = some dst)
    (hk : src.kind = dst.kind) (hflow : src.kind = .flow) :
    Tracks reg g (done ++ [c]) { w with
      nodes := w.nodes.modify j fun n => { n with connectedInputs := n.connectedInputs.add c.toPin }
      flowWires := w.flowWires ++ [(i,((w.nodes[i]?.map (·.flowOutputs)).getD []).idxOf c.fromPin,j,c.toPin)]
      flowEdges := w.flowEdges ++ [(i,j)] } := by
  have hcarries : g.carries reg c = some .flow := by
    rw [Graph.carries,hs]
    exact congrArg some hflow
  refine ⟨by rw [Array.size_modify,ht.size_eq],?_,?_,?_,?_⟩
  · intro k n' hk'
    obtain ⟨n,hn,hkn⟩ := exists_of_getElem?_modify hk'
    obtain ⟨spec,hspec,hf⟩ := ht.node k n hn
    refine ⟨spec,hspec,?_⟩
    have hsrc : ∀ p, (n.dataSources.find? (·.1 == p)).isSome = true ↔
        (n.dataSources.find? (·.1 == p)).isSome = true ∨
          (c.toNode = spec.id ∧ c.toPin = p ∧ g.carries reg c = some .data) := by
      intro p
      rw [hcarries]
      simp
    rcases hkn with ⟨-,rfl⟩ | ⟨-,rfl⟩
    · exact hf.extend rfl rfl rfl rfl hsrc
    · exact hf.extend rfl rfl rfl rfl hsrc
  · exact ht.joins_concat hs hd hk
  · intro e
    rw [ht.dataEdges]
    simp only [List.mem_append,List.mem_singleton]
    constructor
    · rintro ⟨b,hb,h⟩
      exact ⟨b,Or.inl hb,h⟩
    · rintro ⟨b,hb | rfl,h⟩
      · exact ⟨b,hb,h⟩
      · rw [hcarries] at h
        cases h.1
  · intro i' o
    have hsize : i < w.nodes.size := by rw [ht.size_eq]; exact Graph.position?_lt hi
    have hkind := ht.kindOf? hi (Array.getElem?_eq_getElem hsize)
    obtain ⟨spec,-,hf⟩ := ht.node i w.nodes[i] (Array.getElem?_eq_getElem hsize)
    simp only [List.mem_append,List.mem_singleton]
    constructor
    · rintro ⟨fw,hfw | rfl,h1,h2⟩
      · obtain ⟨b,hb,h⟩ := (ht.flowWires i' o).mp ⟨fw,hfw,h1,h2⟩
        exact ⟨b,Or.inl hb,h⟩
      · refine ⟨c,Or.inr rfl,hcarries,by rw [hi,← h1],w.nodes[i].kind,hkind,?_⟩
        rw [← h2,Array.getElem?_eq_getElem hsize,← hf.flowOutputs]
        rfl
    · rintro ⟨b,hb | rfl,h⟩
      · obtain ⟨fw,hfw,h1,h2⟩ := (ht.flowWires i' o).mpr ⟨b,hb,h⟩
        exact ⟨fw,Or.inl hfw,h1,h2⟩
      · obtain ⟨-,hpos,kind,hkind',hidx⟩ := h
        rw [hi] at hpos
        rw [hkind] at hkind'
        refine ⟨_,Or.inr rfl,Option.some.inj hpos,?_⟩
        rw [← hidx,← Option.some.inj hkind',Array.getElem?_eq_getElem hsize,← hf.flowOutputs]
        rfl

theorem Tracks.data (ht : Tracks reg g done w) (hnd : (g.nodes.map (·.id)).Nodup) {c : Connection} {i j : Nat}
    {src dst : PinType} (hi : g.position? c.fromNode = some i) (hj : g.position? c.toNode = some j)
    (hs : g.pinType? reg c.fromNode c.fromPin = some src) (hd : g.pinType? reg c.toNode c.toPin = some dst)
    (hk : src.kind = dst.kind) (hdata : src.kind = .data) :
    Tracks reg g (done ++ [c]) { w with
      nodes := w.nodes.modify j fun n => { n with
        dataSources := (n.dataSources ++ [(c.toPin,(⟨i,c.fromPin⟩ : DataLink))]).mergeSort fun a b => a.1 ≤ b.1 }
      dataEdges := w.dataEdges ++ [(i,j)] } := by
  have hcarries : g.carries reg c = some .data := by
    rw [Graph.carries,hs]
    exact congrArg some hdata
  obtain ⟨specj,hspecj,hidj⟩ := Graph.position?_spec hj
  refine ⟨by rw [Array.size_modify,ht.size_eq],?_,?_,?_,?_⟩
  · intro k n' hk'
    obtain ⟨n,hn,hkn⟩ := exists_of_getElem?_modify hk'
    obtain ⟨spec,hspec,hf⟩ := ht.node k n hn
    refine ⟨spec,hspec,?_⟩
    rcases hkn with ⟨rfl,rfl⟩ | ⟨hkj,rfl⟩
    · rw [hspecj] at hspec
      cases hspec
      refine hf.extend rfl rfl rfl rfl fun p => ?_
      rw [isSome_find?_fst,isSome_find?_fst]
      simp only [(List.mergeSort_perm _ _).mem_iff,List.mem_append,List.mem_singleton]
      constructor
      · rintro ⟨x,hx | rfl,hxp⟩
        · exact Or.inl ⟨x,hx,hxp⟩
        · exact Or.inr ⟨hidj.symm,hxp,hcarries⟩
      · rintro (⟨x,hx,hxp⟩ | ⟨-,hp,-⟩)
        · exact ⟨x,Or.inl hx,hxp⟩
        · exact ⟨_,Or.inr rfl,hp⟩
    · refine hf.extend rfl rfl rfl rfl fun p => ⟨Or.inl,?_⟩
      rintro (h | ⟨hto,-,-⟩)
      · exact h
      · have hpos := Graph.position?_of_getElem? hnd hspec
        rw [← hto,hj] at hpos
        exact absurd (Option.some.inj hpos).symm hkj
  · exact ht.joins_concat hs hd hk
  · intro e
    simp only [List.mem_append,List.mem_singleton]
    rw [ht.dataEdges]
    constructor
    · rintro (⟨b,hb,h⟩ | rfl)
      · exact ⟨b,Or.inl hb,h⟩
      · exact ⟨c,Or.inr rfl,hcarries,hi,hj⟩
    · rintro ⟨b,hb | rfl,h⟩
      · exact Or.inl ⟨b,hb,h⟩
      · obtain ⟨-,h1,h2⟩ := h
        rw [hi] at h1
        rw [hj] at h2
        exact Or.inr (Prod.ext (Option.some.inj h1).symm (Option.some.inj h2).symm)
  · intro i' o
    rw [ht.flowWires]
    simp only [List.mem_append,List.mem_singleton]
    constructor
    · rintro ⟨b,hb,h⟩
      exact ⟨b,Or.inl hb,h⟩
    · rintro ⟨b,hb | rfl,h⟩
      · exact ⟨b,hb,h⟩
      · rw [hcarries] at h
        cases h.1

theorem wire_verdict (ht : Tracks reg g done w) (hnd : (g.nodes.map (·.id)).Nodup) (c : Connection) :
    (∀ e, g.connectionFault? reg done c = some e → wire w c = .error e) ∧
      (g.connectionFault? reg done c = none → ∃ w', wire w c = .ok w' ∧ Tracks reg g (done ++ [c]) w') := by
  unfold Graph.connectionFault? wire
  rw [ht.findIdx?_eq,ht.findIdx?_eq]
  cases hi : g.position? c.fromNode with
  | none =>
    simp only [Graph.findNode?_of_position?_none hi,Option.isNone_none,if_true]
    exact ⟨fun e he => (by cases he; rfl),fun h => (by cases h)⟩
  | some i =>
    obtain ⟨si,hsi,-⟩ := Graph.position?_spec hi
    simp only [Graph.findNode?_of_position? hi,hsi,Option.isNone_some,Bool.false_eq_true,if_false]
    cases hj : g.position? c.toNode with
    | none =>
      simp only [Graph.findNode?_of_position?_none hj,Option.isNone_none,if_true]
      exact ⟨fun e he => (by cases he; rfl),fun h => (by cases h)⟩
    | some j =>
      obtain ⟨sj,hsj,hidj⟩ := Graph.position?_spec hj
      simp only [Graph.findNode?_of_position? hj,hsj,Option.isNone_some,Bool.false_eq_true,if_false,
        ht.pinAt_eq hi,ht.pinAt_eq hj]
      cases hs : g.pinType? reg c.fromNode c.fromPin with
      | none => exact ⟨fun e he => (by cases he; rfl),fun h => (by cases h)⟩
      | some src =>
        cases hd : g.pinType? reg c.toNode c.toPin with
        | none => exact ⟨fun e he => (by cases he; rfl),fun h => (by cases h)⟩
        | some dst =>
          simp only [bind,Except.bind,expectDirection]
          by_cases h1 : src.direction = .output
          · simp only [h1,ne_eq,not_true_eq_false,if_true,if_false]
            by_cases h2 : dst.direction = .input
            · simp only [h2,not_true_eq_false,if_true,if_false]
              by_cases h3 : src.kind = dst.kind
              · simp only [h3,not_true_eq_false,if_false]
                cases hk : dst.kind with
                | flow =>
                  simp only [if_false,reduceCtorEq,false_and]
                  exact ⟨fun e he => (by cases he),fun _ => ⟨_,rfl,ht.flow hi hj hs hd h3 (h3.trans hk)⟩⟩
                | data =>
                  have hj' : j < w.nodes.size := by rw [ht.size_eq]; exact Graph.position?_lt hj
                  obtain ⟨spec,hspec,hf⟩ := ht.node j w.nodes[j] (Array.getElem?_eq_getElem hj')
                  rw [hsj] at hspec
                  cases hspec
                  have hdup : (((w.nodes[j]?.map (·.dataSources)).getD []).find? (·.1 == c.toPin)).isSome =
                      done.any fun b => b.toNode == c.toNode && b.toPin == c.toPin := by
                    rw [Array.getElem?_eq_getElem hj',Bool.eq_iff_iff]
                    simp only [Option.map_some,Option.getD_some]
                    rw [hf.sources,List.any_eq_true]
                    constructor
                    · rintro ⟨b,hb,hto,hpin,-⟩
                      exact ⟨b,hb,by simp [hto,hidj,hpin]⟩
                    · rintro ⟨b,hb,hbc⟩
                      simp only [Bool.and_eq_true,beq_iff_eq] at hbc
                      obtain ⟨sb,db,hsb,hdb,hkb⟩ := ht.joins b hb
                      rw [hbc.1,hbc.2,hd] at hdb
                      cases hdb
                      refine ⟨b,hb,hbc.1.trans hidj.symm,hbc.2,?_⟩
                      rw [Graph.carries,hsb]
                      exact congrArg some (hkb.trans hk)
                  rw [hdup]
                  by_cases h4 : (done.any fun b => b.toNode == c.toNode && b.toPin == c.toPin) = true
                  · simp only [h4,and_self,if_true]
                    exact ⟨fun e he => (by cases he; rfl),fun h => (by cases h)⟩
                  · simp only [h4,and_false,if_false,Bool.false_eq_true]
                    exact ⟨fun e he => (by cases he),fun _ => ⟨_,rfl,ht.data hnd hi hj hs hd h3 (h3.trans hk)⟩⟩
              · simp only [h3,not_false_eq_true,if_true]
                exact ⟨fun e he => (by cases he; rfl),fun h => (by cases h)⟩
            · simp only [h2,not_false_eq_true,if_true,if_false]
              exact ⟨fun e he => (by cases he; rfl),fun h => (by cases h)⟩
          · simp only [h1,ne_eq,not_false_eq_true,if_true,if_false]
            exact ⟨fun e he => (by cases he; rfl),fun h => (by cases h)⟩

theorem foldlM_wire_verdict (hnd : (g.nodes.map (·.id)).Nodup) :
    ∀ (conns : List Connection) {done : List Connection} {w : Wiring}, Tracks reg g done w →
      (∀ e, firstFault? (g.connectionFault? reg) done conns = some e → conns.foldlM wire w = .error e) ∧
        (firstFault? (g.connectionFault? reg) done conns = none →
          ∃ w', conns.foldlM wire w = .ok w' ∧ Tracks reg g (done ++ conns) w')
  | [],done,w,ht => ⟨fun e he => (by cases he),fun _ => ⟨w,rfl,by rw [List.append_nil]; exact ht⟩⟩
  | c :: rest,done,w,ht => by
    obtain ⟨herr,hok⟩ := wire_verdict ht hnd c
    simp only [firstFault?,List.foldlM_cons]
    cases hf : g.connectionFault? reg done c with
    | some e =>
      rw [herr e hf]
      exact ⟨fun e' he' => (by cases he'; rfl),fun h => (by cases h)⟩
    | none =>
      obtain ⟨w₁,hw₁,ht₁⟩ := hok hf
      obtain ⟨herr',hok'⟩ := foldlM_wire_verdict hnd rest ht₁
      rw [hw₁]
      simp only [Option.orElse_none]
      refine ⟨fun e he => herr' e he,fun h => ?_⟩
      obtain ⟨w',hw',ht'⟩ := hok' h
      refine ⟨w',hw',?_⟩
      rw [← List.singleton_append,← List.append_assoc]
      exact ht'

/-! ## Data cycles -/

theorem position?_of_pinType? {id : Uuid} {pin : Nat} {p : PinType} (h : g.pinType? reg id pin = some p) :
    ∃ i, g.position? id = some i := by
  cases hpos : g.position? id with
  | none =>
    rw [Graph.pinType?,Graph.kindOf?,Graph.findNode?_of_position?_none hpos] at h
    cases h
  | some i => exact ⟨i,rfl⟩

theorem Tracks.dataEdges_lt (ht : Tracks reg g done w) : ∀ e ∈ w.dataEdges, e.1 < g.nodes.length ∧ e.2 < g.nodes.length := by
  intro e he
  obtain ⟨b,-,-,h1,h2⟩ := (ht.dataEdges e).mp he
  exact ⟨Graph.position?_lt h1,Graph.position?_lt h2⟩

theorem Tracks.acyclic_iff (ht : Tracks reg g g.connections w) :
    (⟨g.nodes.length,w.dataEdges⟩ : Digraph).Acyclic ↔ g.DataAcyclic reg := by
  constructor
  · intro hac a ha
    have hlift : ∀ x y, g.DataFeeds reg x y →
        Digraph.Adj ⟨g.nodes.length,w.dataEdges⟩ ((g.position? x).getD 0) ((g.position? y).getD 0) := by
      rintro x y ⟨c,hc,rfl,rfl,hdata⟩
      obtain ⟨src,dst,hs,hd,-⟩ := ht.joins c hc
      obtain ⟨i,hi⟩ := position?_of_pinType? hs
      obtain ⟨j,hj⟩ := position?_of_pinType? hd
      rw [hi,hj]
      exact (ht.dataEdges (i,j)).mpr ⟨c,hc,hdata,hi,hj⟩
    exact hac _ (ha.lift _ hlift)
  · intro hac u hu
    have hlift : ∀ i j, Digraph.Adj ⟨g.nodes.length,w.dataEdges⟩ i j →
        g.DataFeeds reg ((g.nodes[i]?.map (·.id)).getD Uuid.nil) ((g.nodes[j]?.map (·.id)).getD Uuid.nil) := by
      intro i j hij
      obtain ⟨c,hc,hdata,hi,hj⟩ := (ht.dataEdges (i,j)).mp hij
      obtain ⟨si,hsi,hidi⟩ := Graph.position?_spec hi
      obtain ⟨sj,hsj,hidj⟩ := Graph.position?_spec hj
      rw [hsi,hsj]
      exact ⟨c,hc,hidi.symm,hidj.symm,hdata⟩
    exact hac _ (hu.lift _ hlift)

/-! ## Unwired outputs -/

theorem flowOutputs_eq_filter : ∀ (pins : List PinType), pins.length ≤ 256 →
    flowOutputs pins = (List.range pins.length).filter fun i => (pins[i]?.map PinType.isFlowOutput).getD false := by
  intro pins
  induction pins using List.reverseRecOn with
  | nil => exact fun _ => rfl
  | append_singleton pins p ih =>
    intro hlen
    have hlt : pins.length < 256 := by
      simp only [List.length_append,List.length_singleton] at hlen
      omega
    rw [flowOutputs,List.length_append,List.length_singleton,List.range_succ,
      List.zip_append (by simp),List.filterMap_append,List.filter_append]
    rw [flowOutputs] at ih
    rw [ih (Nat.le_of_lt hlt)]
    congr 1
    · refine List.filter_congr fun i hi => ?_
      rw [List.getElem?_append_left (List.mem_range.mp hi)]
    · cases hp : p.isFlowOutput <;> simp [hp,Nat.mod_eq_of_lt hlt]

theorem flowOutputs_nodup {pins : List PinType} (h : pins.length ≤ maxPins) : (flowOutputs pins).Nodup := by
  rw [flowOutputs_eq_filter pins (by simp only [maxPins] at h; omega)]
  exact List.nodup_range.filter _

theorem pin_of_mem_flowOutputs {pins : List PinType} (h : pins.length ≤ maxPins) {x : Nat}
    (hx : x ∈ flowOutputs pins) : pins[x]? = some PinType.flowOut := by
  rw [flowOutputs_eq_filter pins (by simp only [maxPins] at h; omega),List.mem_filter] at hx
  obtain ⟨hx,hflow⟩ := hx
  rw [List.getElem?_eq_getElem (List.mem_range.mp hx)] at hflow ⊢
  simp only [Option.map_some,Option.getD_some,PinType.isFlowOutput,beq_iff_eq] at hflow
  rw [hflow]

theorem placeTargets_targets (back : List (Nat × Nat)) :
    ∀ (wires : List (Nat × Nat × Nat × Nat)) (nodes : Array CompiledNode) (i : Nat) (n : CompiledNode),
      nodes[i]? = some n → ∃ n', (placeTargets nodes back wires)[i]? = some n' ∧
        n'.targets.length = n.targets.length ∧ ∀ o < n.targets.length,
          ((n'.targets.getD o []).isEmpty = true ↔
            (n.targets.getD o []).isEmpty = true ∧ ¬∃ fw ∈ wires, fw.1 = i ∧ fw.2.1 = o)
  | [],nodes,i,n,hn => ⟨n,hn,rfl,fun o _ => by simp⟩
  | (src,ord,dst,pin) :: rest,nodes,i,n,hn => by
    let f : CompiledNode → CompiledNode := fun m =>
      { m with targets := m.targets.modify ord (· ++ [⟨dst,pin,back.contains (src,dst)⟩]) }
    have hn₁ : (nodes.modify src f)[i]? = some (if src = i then f n else n) := by
      rw [Array.getElem?_modify,hn]
      split <;> rfl
    obtain ⟨n',hn',hlen,hempty⟩ := placeTargets_targets back rest (nodes.modify src f) i _ hn₁
    have hlen₁ : (if src = i then f n else n).targets.length = n.targets.length := by
      split
      · exact List.length_modify _ _ _
      · rfl
    refine ⟨n',hn',hlen.trans hlen₁,fun o ho => ?_⟩
    rw [hempty o (by rw [hlen₁]; exact ho)]
    have hhead : ((if src = i then f n else n).targets.getD o []).isEmpty = true ↔
        (n.targets.getD o []).isEmpty = true ∧ ¬(src = i ∧ ord = o) := by
      by_cases hsi : src = i
      · rw [if_pos hsi]
        simp only [f,List.getD_eq_getElem?_getD,List.getElem?_modify]
        by_cases hoo : ord = o
        · simp [hsi,hoo,List.getElem?_eq_getElem ho]
        · simp [hoo]
      · rw [if_neg hsi]
        simp [hsi]
    rw [hhead]
    simp only [List.mem_cons,exists_eq_or_imp,not_or,and_assoc]

theorem findIdx?_eq_of_getElem {α β : Type} {p : α → Bool} {q : β → Bool} :
    ∀ {l₁ : List α} {l₂ : List β}, l₁.length = l₂.length →
      (∀ o (h₁ : o < l₁.length) (h₂ : o < l₂.length), p l₁[o] = q l₂[o]) → l₁.findIdx? p = l₂.findIdx? q
  | [],[],_,_ => rfl
  | a :: as,b :: bs,hlen,h => by
    have hab : p a = q b := h 0 (by simp) (by simp)
    have hlen' : as.length = bs.length := by simpa using hlen
    have hrest := findIdx?_eq_of_getElem hlen' fun o h₁ h₂ => h (o + 1) (by simpa using h₁) (by simpa using h₂)
    rw [List.findIdx?_cons,List.findIdx?_cons,hab,hrest]

theorem find?_eq_map_findIdx? {α : Type} (p : α → Bool) (l : List α) (d : α) :
    l.find? p = (l.findIdx? p).map (l.getD · d) := by
  cases h : l.findIdx? p with
  | none =>
    rw [Option.map_none,List.find?_eq_none]
    intro x hx
    simp [List.findIdx?_eq_none_iff.mp h x hx]
  | some k =>
    obtain ⟨hk,hfi⟩ := List.findIdx?_eq_some_iff_findIdx_eq.mp h
    rw [List.find?_eq_getElem?_findIdx,hfi,Option.map_some,List.getD_eq_getElem?_getD,
      List.getElem?_eq_getElem hk]
    rfl

theorem findSome?_eq_of_getElem? {α β γ : Type} {f : α → Option γ} {f' : β → Option γ} :
    ∀ {l₁ : List α} {l₂ : List β}, (∀ i : Nat, l₁[i]?.bind f = l₂[i]?.bind f') → l₁.findSome? f = l₂.findSome? f'
  | [],[],_ => rfl
  | [],b :: bs,h => by
    refine (List.findSome?_eq_none_iff.mpr fun x hx => ?_).symm
    obtain ⟨i,hi,rfl⟩ := List.getElem_of_mem hx
    have := h i
    rw [List.getElem?_eq_getElem hi] at this
    simpa using this.symm
  | a :: as,[],h => by
    refine List.findSome?_eq_none_iff.mpr fun x hx => ?_
    obtain ⟨i,hi,rfl⟩ := List.getElem_of_mem hx
    have := h i
    rw [List.getElem?_eq_getElem hi] at this
    simpa using this
  | a :: as,b :: bs,h => by
    have hab : f a = f' b := h 0
    rw [List.findSome?_cons,List.findSome?_cons,hab,findSome?_eq_of_getElem? fun i => h (i + 1)]

theorem Tracks.wired_iff (ht : Tracks reg g g.connections w) (hnd : (g.nodes.map (·.id)).Nodup)
    {i : Nat} {spec : NodeSpec} (hs : g.nodes[i]? = some spec) {kind : NodeKind}
    (hk : lookupMember spec.nodeType reg.types = some kind) (hpins : kind.pins.length ≤ maxPins)
    {o : Nat} (ho : o < kind.flowOutputs.length) :
    (∃ fw ∈ w.flowWires, fw.1 = i ∧ fw.2.1 = o) ↔ g.wiredFrom spec.id kind.flowOutputs[o] = true := by
  have hpos : g.position? spec.id = some i := Graph.position?_of_getElem? hnd hs
  have hkind : g.kindOf? reg spec.id = some kind := by
    rw [Graph.kindOf?,Graph.findNode?_of_position? hpos,hs]
    exact hk
  rw [ht.flowWires,Graph.wiredFrom,List.any_eq_true]
  constructor
  · rintro ⟨b,hb,-,hbi,kind',hkind',rfl⟩
    obtain ⟨s',hs',hid⟩ := Graph.position?_spec hbi
    rw [hs] at hs'
    cases hs'
    rw [← hid,hkind] at hkind'
    cases hkind'
    refine ⟨b,hb,?_⟩
    rw [List.getElem_idxOf ho]
    simp [hid]
  · rintro ⟨b,hb,hbeq⟩
    simp only [Bool.and_eq_true,beq_iff_eq] at hbeq
    obtain ⟨hfrom,hpin⟩ := hbeq
    have hflow : kind.pins[b.fromPin]? = some PinType.flowOut := by
      rw [hpin]
      exact pin_of_mem_flowOutputs hpins (List.getElem_mem ho)
    refine ⟨b,hb,?_,by rw [hfrom]; exact hpos,kind,by rw [hfrom]; exact hkind,?_⟩
    · rw [Graph.carries,Graph.pinType?,hfrom,hkind,Option.bind_some,hflow]
      rfl
    · rw [hpin]
      exact (flowOutputs_nodup hpins).idxOf_getElem o ho

theorem forall_of_firstFault?_eq_none {α : Type} {check : List α → α → Option DefinitionError} :
    ∀ {before l : List α}, firstFault? check before l = none → ∀ x ∈ l, ∃ pre, check pre x = none
  | _,[],_,x,hx => absurd hx List.not_mem_nil
  | before,y :: rest,h,x,hx => by
    rw [firstFault?] at h
    cases hy : check before y with
    | some e =>
      rw [hy] at h
      cases h
    | none =>
      rw [hy,Option.orElse_none] at h
      rcases List.mem_cons.mp hx with rfl | hx
      · exact ⟨before,hy⟩
      · exact forall_of_firstFault?_eq_none h x hx

theorem pins_le_of_nodeFault?_eq_none {before : List NodeSpec} {spec : NodeSpec}
    (h : Graph.nodeFault? reg before spec = none) {kind : NodeKind}
    (hk : lookupMember spec.nodeType reg.types = some kind) : kind.pins.length ≤ maxPins := by
  rw [Graph.nodeFault?] at h
  split at h
  · cases h
  · simp only [hk] at h
    by_contra hlt
    rw [if_pos (Nat.lt_of_not_le hlt)] at h
    cases h

theorem firstUnwired?_placeTargets (ht : Tracks reg g g.connections w) (hnd : (g.nodes.map (·.id)).Nodup)
    (hpins : ∀ spec ∈ g.nodes, ∀ kind, lookupMember spec.nodeType reg.types = some kind → kind.pins.length ≤ maxPins)
    (back : List (Nat × Nat)) :
    firstUnwired? (placeTargets w.nodes back w.flowWires).toList = g.unwiredOutput? reg := by
  refine findSome?_eq_of_getElem? fun i => ?_
  rw [Array.getElem?_toList]
  have hview := placeTargets_getElem? back (fun n => (n.spec,n.flowOutputs)) (fun _ _ => rfl) w.nodes w.flowWires i
  cases hn : w.nodes[i]? with
  | none =>
    have hi : g.nodes.length ≤ i := by
      rw [← ht.size_eq]
      exact Array.getElem?_eq_none_iff.mp hn
    rw [hn,Option.map_none,Option.map_eq_none_iff] at hview
    rw [hview,List.getElem?_eq_none hi]
    rfl
  | some n =>
    obtain ⟨spec,hs,hf⟩ := ht.node i n hn
    obtain ⟨n',hn',hlen,hempty⟩ := placeTargets_targets back w.flowWires w.nodes i n hn
    rw [hn,hn'] at hview
    simp only [Option.map_some,Option.some.injEq,Prod.mk.injEq] at hview
    obtain ⟨hspec,hout⟩ := hview
    have hkind := hf.kind
    have hpin := hpins spec (List.mem_of_getElem? hs) n.kind hkind
    have hlen' : n'.targets.length = n.kind.flowOutputs.length := by
      rw [hlen,hf.targets,List.length_replicate,hf.flowOutputs]
    have hidx : n'.targets.findIdx? (·.isEmpty) = n.kind.flowOutputs.findIdx? fun pin => !g.wiredFrom spec.id pin := by
      refine findIdx?_eq_of_getElem hlen' fun o h₁ h₂ => ?_
      have ho : o < n.targets.length := by rw [← hlen]; exact h₁
      have hnil : n.targets.getD o [] = [] := by
        rw [hf.targets]
        simp [List.getD_eq_getElem?_getD]
      have h := hempty o ho
      rw [hnil,List.getD_eq_getElem?_getD,List.getElem?_eq_getElem h₁,Option.getD_some,
        ht.wired_iff hnd hs hkind hpin h₂] at h
      simp only [List.isEmpty_nil,true_and] at h
      rw [Bool.eq_iff_iff,h]
      simp
    rw [hn',hs,Option.bind_some,Option.bind_some]
    simp only [hkind,hidx,hspec,hout,hf.spec_eq,hf.flowOutputs]
    rw [find?_eq_map_findIdx? _ _ 0]
    cases n.kind.flowOutputs.findIdx? fun pin => !g.wiredFrom spec.id pin <;> rfl

/-! ## The verdict -/

theorem compile_of_itemFault? {e : DefinitionError} (h : g.itemFault? reg = some e) : compile reg g = .error e := by
  obtain ⟨hnerr,hnok⟩ := compileNodes_verdict reg g.nodes [] [] (by simp) rfl
  cases hnf : firstFault? (Graph.nodeFault? reg) [] g.nodes with
  | some e' =>
    rw [Graph.itemFault?,hnf] at h
    cases h
    unfold compile
    rw [hnerr e hnf]
    rfl
  | none =>
    rw [Graph.itemFault?,hnf,Option.orElse_none] at h
    obtain ⟨ns,hns,hfresh⟩ := hnok hnf
    have hnd : (g.nodes.map (·.id)).Nodup := by
      rw [← (Tracks.init hfresh).specs,List.map_map]
      exact (compileNodes_spec hns).2
    have hw := (foldlM_wire_verdict hnd g.connections (Tracks.init hfresh)).1 e h
    unfold compile
    simp only [hns,hw,bind,Except.bind]

theorem wired_of_itemFault?_eq_none (h : g.itemFault? reg = none) :
    ∃ ns w, compileNodes reg [] g.nodes = .ok ns ∧ g.connections.foldlM wire { nodes := ns.toArray } = .ok w ∧
      Tracks reg g g.connections w ∧ ns.length = g.nodes.length ∧ (g.nodes.map (·.id)).Nodup ∧
      ∀ spec ∈ g.nodes, ∀ kind, lookupMember spec.nodeType reg.types = some kind → kind.pins.length ≤ maxPins := by
  cases hnf : firstFault? (Graph.nodeFault? reg) [] g.nodes with
  | some e =>
    rw [Graph.itemFault?,hnf] at h
    cases h
  | none =>
    rw [Graph.itemFault?,hnf,Option.orElse_none] at h
    obtain ⟨ns,hns,hfresh⟩ := (compileNodes_verdict reg g.nodes [] [] (by simp) rfl).2 hnf
    have hnd : (g.nodes.map (·.id)).Nodup := by
      rw [← (Tracks.init hfresh).specs,List.map_map]
      exact (compileNodes_spec hns).2
    obtain ⟨w,hw,ht⟩ := (foldlM_wire_verdict hnd g.connections (Tracks.init hfresh)).2 h
    refine ⟨ns,w,hns,hw,ht,hfresh.length_eq.symm,hnd,fun spec hspec kind hk => ?_⟩
    obtain ⟨pre,hpre⟩ := forall_of_firstFault?_eq_none hnf spec hspec
    exact pins_le_of_nodeFault?_eq_none hpre hk

/-- Past the item checks, compiling fails on a data cycle, then, with `strictOutputs`, on the
first unwired flow output, and succeeds otherwise. -/
theorem compile_of_items_pass (h : g.itemFault? reg = none) :
    (¬ g.DataAcyclic reg → ∃ id, compile reg g = .error (.cyclicDataDependency id)) ∧
    (g.DataAcyclic reg → g.settings.strictOutputs = true → ∀ id pin,
      g.unwiredOutput? reg = some (id,pin) → compile reg g = .error (.unwiredOutput id pin)) ∧
    (g.DataAcyclic reg → (g.settings.strictOutputs = true → g.unwiredOutput? reg = none) →
      ∃ cg, compile reg g = .ok cg) := by
  obtain ⟨ns,w,hns,hw,ht,hlen,hnd,hpins⟩ := wired_of_itemFault?_eq_none h
  have hcyc : (Digraph.mk ns.length w.dataEdges).cycleWitness? = none ↔ g.DataAcyclic reg := by
    rw [Digraph.cycleWitness?_eq_none_iff (by rw [hlen]; exact ht.dataEdges_lt),← ht.acyclic_iff,hlen]
  have hunw := firstUnwired?_placeTargets ht hnd hpins
  -- the node checks left every node an index below the end marker
  have hsize : ∀ back, (placeTargets w.nodes back w.flowWires).size ≤ nodeIndexEnd := by
    intro back
    rw [size_placeTargets,ht.size_eq,← hlen]
    simpa using length_le_of_compileNodes hns (Nat.zero_le _)
  unfold compile
  simp only [hns,hw,bind,Except.bind]
  refine ⟨fun hcyclic => ?_,fun hac hstrict id pin hout => ?_,fun hac hout => ?_⟩
  · obtain ⟨i,hi⟩ := Option.ne_none_iff_exists'.mp (mt hcyc.mp hcyclic)
    rw [hi]
    exact ⟨_,rfl⟩
  · rw [hcyc.mpr hac,if_pos hstrict,hunw,hout]
    rfl
  · rw [hcyc.mpr hac]
    by_cases hstrict : g.settings.strictOutputs = true
    · rw [if_pos hstrict,hunw,hout hstrict]
      exact ⟨_,by simp only [dif_pos (hsize _)]; rfl⟩
    · rw [if_neg hstrict]
      exact ⟨_,by simp only [dif_pos (hsize _)]; rfl⟩

/-- Compiling accepts exactly the definitions that pass every check, and otherwise reports the
first failing one: a node's check, then a connection's, then a data cycle, then, with
`strictOutputs`, the first flow output that no connection leaves. -/
theorem compile_reports_first_violation (reg : Registry) (g : Graph) :
    ((∃ cg, compile reg g = .ok cg) ↔ g.itemFault? reg = none ∧ g.DataAcyclic reg ∧
      (g.settings.strictOutputs = true → g.unwiredOutput? reg = none)) ∧
    (∀ e, g.itemFault? reg = some e → compile reg g = .error e) ∧
    (g.itemFault? reg = none → ¬ g.DataAcyclic reg → ∃ id, compile reg g = .error (.cyclicDataDependency id)) ∧
    (g.itemFault? reg = none → g.DataAcyclic reg → g.settings.strictOutputs = true →
      ∀ id pin, g.unwiredOutput? reg = some (id,pin) → compile reg g = .error (.unwiredOutput id pin)) := by
  refine ⟨⟨?_,?_⟩,fun e he => compile_of_itemFault? he,fun h => (compile_of_items_pass h).1,
    fun h => (compile_of_items_pass h).2.1⟩
  · rintro ⟨cg,hcg⟩
    cases hi : g.itemFault? reg with
    | some e =>
      rw [compile_of_itemFault? hi] at hcg
      cases hcg
    | none =>
      obtain ⟨hcyc,hunw,-⟩ := compile_of_items_pass hi
      have hac : g.DataAcyclic reg := by
        by_contra hcyclic
        obtain ⟨id,hid⟩ := hcyc hcyclic
        rw [hid] at hcg
        cases hcg
      refine ⟨rfl,hac,fun hstrict => ?_⟩
      cases hout : g.unwiredOutput? reg with
      | none => rfl
      | some out =>
        rw [hunw hac hstrict out.1 out.2 hout] at hcg
        cases hcg
  · rintro ⟨hi,hac,hout⟩
    exact (compile_of_items_pass hi).2.2 hac hout

end CompiledGraph

end Tickflow
