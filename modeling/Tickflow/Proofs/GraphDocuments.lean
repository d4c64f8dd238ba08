import Tickflow.Proofs.TypedValues
import Tickflow.Graph.Document
/-! # Graph documents written and read back

The pretty text of a storable graph (`Graph.Storable`) reads back as the graph while its
document nests less deeply than the reader allows, and is refused once it nests deeper; only
configuration values can reach the limit, as `deepGraph` does.
-/
namespace Tickflow

namespace Uuid

theorem length_hexDigits (v n : Nat) : (hexDigits v n).length = n := by
  induction n generalizing v with
  | zero => rfl
  | succ n ih => simp [hexDigits,ih]

theorem hexDigitValue_hexChar : ∀ d < 16, hexDigitValue (hexChar d) = some d := by decide

theorem ofHexDigits?_hexDigits (v n : Nat) : ofHexDigits? (hexDigits v n) = some (v % 16 ^ n) := by
  induction n generalizing v with
  | zero => simp [hexDigits,ofHexDigits?,Nat.mod_one]
  | succ n ih =>
    have hd := hexDigitValue_hexChar (v % 16) (Nat.mod_lt v (by decide))
    unfold ofHexDigits? at ih ⊢
    rw [hexDigits,List.foldlM_append,ih]
    simp [hd,pow_succ',Nat.mod_mul]
    omega

theorem ungroup?_grouped {ds : List Char} (h : ds.length = 32) :
    ungroup? (ds.take 8 ++ '-' :: (ds.drop 8).take 4 ++ '-' :: (ds.drop 12).take 4 ++ '-' :: (ds.drop 16).take 4 ++
      '-' :: ds.drop 20) = some ds := by
  have hjoin : ∀ n k : Nat, (ds.drop n).take k ++ ds.drop (n + k) = ds.drop n := fun n k => by
    rw [← List.drop_drop,List.take_append_drop]
  simp [ungroup?,h,List.drop_append,List.drop_take]
  rw [hjoin 16 4,hjoin 12 4,hjoin 8 4,List.take_append_drop]

theorem parse?_toText {u : Uuid} (h : u.value < 2 ^ 128) : parse? u.toText = some u := by
  have hlen := length_hexDigits u.value 32
  have hcs : u.toText.toList = (hexDigits u.value 32).take 8 ++ '-' :: ((hexDigits u.value 32).drop 8).take 4 ++
      '-' :: ((hexDigits u.value 32).drop 12).take 4 ++ '-' :: ((hexDigits u.value 32).drop 16).take 4 ++
      '-' :: (hexDigits u.value 32).drop 20 := by
    simp [toText]
  have h36 : u.toText.toList.length = 36 := by
    rw [hcs]
    simp [hlen]
  have hv : u.value % 16 ^ 32 = u.value := Nat.mod_eq_of_lt (by omega)
  unfold parse?
  simp only [h36,hcs ▸ ungroup?_grouped hlen]
  simp [hlen,ofHexDigits?_hexDigits,hv,-Nat.reducePow]

end Uuid

/-! ## What a graph document keeps -/

/-- A node its document keeps: an identifier of 128 bits, a configuration that is a storable map,
and finite coordinates. -/
structure NodeSpec.Storable (n : NodeSpec) : Prop where
  id_lt : n.id.value < 2 ^ 128
  config : (Value.map n.config).Storable
  position_finite : ∀ p ∈ n.position, p.x.isFinite = true ∧ p.y.isFinite = true

/-- A connection its document keeps: identifiers of 128 bits and pins that are bytes. -/
structure Connection.Storable (c : Connection) : Prop where
  fromNode_lt : c.fromNode.value < 2 ^ 128
  fromPin_lt : c.fromPin < 256
  toNode_lt : c.toNode.value < 2 ^ 128
  toPin_lt : c.toPin < 256

/-- Settings their document keeps: a timeout of 64 bits. -/
structure GraphSettings.Storable (s : GraphSettings) : Prop where
  timeout_lt : ∀ t ∈ s.joinTimeoutTicks, t < 2 ^ 64

/-- A graph its document keeps: every identifier of 128 bits, every pin a byte, the timeout of 64
bits, every configuration a storable map and every coordinate finite. -/
structure Graph.Storable (g : Graph) : Prop where
  id_lt : g.id.value < 2 ^ 128
  nodes : ∀ n ∈ g.nodes, n.Storable
  connections : ∀ c ∈ g.connections, c.Storable
  settings : g.settings.Storable

namespace Graph

open Json

theorem toOption_eq_some {ε α : Type} {x : Except ε α} {a : α} (h : x.toOption = some a) : x = .ok a := by
  cases x <;> simp_all [Except.toOption]

theorem toOption_eq_none {ε α : Type} {x : Except ε α} (h : x.toOption = none) : ∃ e, x = .error e := by
  cases x <;> simp_all [Except.toOption]

theorem readUuid_string {u : Uuid} (hu : u.value < 2 ^ 128) : readUuid (.string u.toText) = .ok u := by
  simp [readUuid,Uuid.parse?_toText hu]

theorem readUnsigned_nat {bits n : Nat} (h : n < 2 ^ bits) : readUnsigned bits (.int n) = .ok n := by
  simp only [readUnsigned,Int.natCast_nonneg,true_and,Int.toNat_natCast,Nat.pow_eq]
  rw [if_pos (by exact_mod_cast h)]

theorem readsBack_opt_string {lim : Nat} {s : Option String} {j' : Json} (h : ReadsBack lim (opt (s.map .string)) j') :
    j' = opt (s.map .string) := by
  cases s <;> exact h

theorem orNone_opt_string {s : Option String} : orNone (some (opt (s.map .string))) readString = .ok s := by
  cases s <;> rfl

/-! ## Records read from the members they were written with -/

theorem readConnection_object (a b c d : Json) :
    readConnection (.object [("from_node",a),("from_pin",b),("to_node",c),("to_pin",d)]) =
      (do let f ← readUuid a; let p ← readUnsigned 8 b; let t ← readUuid c; let q ← readUnsigned 8 d
          pure ⟨f,p,t,q⟩) := by
  simp [readConnection,fields,member?,bind,Except.bind,pure,Except.pure,need]

theorem readSettings_object (a b : Json) :
    readSettings (.object [("join_timeout_ticks",a),("strict_outputs",b)]) =
      (do let t ← orNone (some a) (readUnsigned 64); let s ← orDefault (some b) false readBool
          pure ⟨t,s⟩) := by
  simp [readSettings,fields,member?,bind,Except.bind,pure,Except.pure]

theorem readPosition_object (a b : Json) :
    readPosition (.object [("x",a),("y",b)]) = (do let x ← readCoordinate a; let y ← readCoordinate b; pure ⟨x,y⟩) := by
  simp [readPosition,fields,member?,bind,Except.bind,pure,Except.pure,need]

theorem readNode_object (a b c d e : Json) :
    readNode (.object [("id",a),("node_type",b),("name",c),("config",d),("position",e)]) =
      (do let id ← readUuid a; let nodeType ← readString b; let name ← orNone (some c) readString
          let config ← orDefault (some d) [] readConfig; let position ← orNone (some e) readPosition
          pure ⟨id,nodeType,name,config,position⟩) := by
  simp [readNode,fields,member?,bind,Except.bind,pure,Except.pure,need,orDefault]

theorem ofJson?_object (a b c d e f : Json) :
    ofJson? (.object [("id",a),("name",b),("description",c),("nodes",d),("connections",e),("settings",f)]) =
      (do let id ← readUuid a; let name ← readString b; let description ← orNone (some c) readString
          let nodes ← readArray readNode d; let connections ← orDefault (some e) [] (readArray readConnection)
          let settings ← orDefault (some f) {} readSettings
          pure ⟨id,name,description,nodes,connections,settings⟩) := by
  simp [ofJson?,fields,member?,bind,Except.bind,pure,Except.pure,need,orDefault]

/-! ## Records read back after their text -/

theorem readConnection_readsBack {lim : Nat} {c : Connection} {j' : Json} (hc : c.Storable) (hl : 2 ≤ lim)
    (h : ReadsBack lim (connectionJson c) j') : readConnection j' = .ok c := by
  rcases readsBack_object_iff.mp h with ⟨hl',-⟩ | ⟨-,ms',rfl,hms⟩
  · omega
  obtain ⟨a,-,rfl,rfl,b,-,rfl,rfl,d,-,rfl,rfl,e,-,rfl,rfl,rfl⟩ := hms
  rw [readConnection_object,readUuid_string hc.fromNode_lt,readUuid_string hc.toNode_lt,
    readUnsigned_nat (show c.fromPin < 2 ^ 8 from hc.fromPin_lt),readUnsigned_nat (show c.toPin < 2 ^ 8 from hc.toPin_lt)]
  rfl

theorem readSettings_readsBack {lim : Nat} {s : GraphSettings} {j' : Json} (hs : s.Storable) (hl : 2 ≤ lim)
    (h : ReadsBack lim (settingsJson s) j') : readSettings j' = .ok s := by
  rcases readsBack_object_iff.mp h with ⟨hl',-⟩ | ⟨-,ms',rfl,hms⟩
  · omega
  obtain ⟨a,-,rfl,ha,b,-,rfl,rfl,rfl⟩ := hms
  obtain ⟨timeout,strict⟩ := s
  rw [readSettings_object]
  cases timeout with
  | none =>
    cases ha
    rfl
  | some t =>
    cases ha
    have hr : orNone (some (.int t)) (readUnsigned 64) = .ok (some t) := by
      rw [orNone,readUnsigned_nat (hs.timeout_lt t rfl)]
      · rfl
      · nofun
    rw [hr]
    rfl

theorem readPosition_readsBack {lim : Nat} {p : Position} {j' : Json} (hl : 2 ≤ lim)
    (h : ReadsBack lim (.object [("x",.single p.x),("y",.single p.y)]) j') : readPosition j' = .ok p := by
  rcases readsBack_object_iff.mp h with ⟨hl',-⟩ | ⟨-,ms',rfl,hms⟩
  · omega
  obtain ⟨a,-,rfl,⟨d,x,rfl,hx⟩,b,-,rfl,⟨e,y,rfl,hy⟩,rfl⟩ := hms
  rw [readPosition_object]
  simp [readCoordinate,hx,hy,bind,Except.bind,pure,Except.pure]

theorem orNone_position_readsBack {lim : Nat} {pos : Option Position} {e : Json} (hl : 2 ≤ lim)
    (h : ReadsBack lim (opt (pos.map fun p => .object [("x",.single p.x),("y",.single p.y)])) e) :
    orNone (some e) readPosition = .ok pos := by
  cases pos with
  | none =>
    cases h
    rfl
  | some p =>
    rcases readsBack_object_iff.mp h with ⟨hl',-⟩ | ⟨-,ms',rfl,hms⟩
    · omega
    rw [orNone,readPosition_readsBack hl h]
    · rfl
    · nofun

theorem toTypedMembers_eq_map (l : List (String × Value)) :
    Value.toTypedMembers l = l.map fun (k,v) => (k,v.toTyped) := by
  induction l with
  | nil => rfl
  | cons m rest ih =>
    obtain ⟨k,v⟩ := m
    rw [Value.toTypedMembers,ih,List.map_cons]

theorem readConfig_object (ms : List (String × Json)) :
    readConfig (.object ms) = orderMembers <$> Value.ofTypedMembers ms := by
  rw [readConfig]
  congr 1
  induction ms with
  | nil => rfl
  | cons m rest ih =>
    obtain ⟨k,v⟩ := m
    rw [List.mapM_cons,ih,Value.ofTypedMembers]
    dsimp only
    cases Value.ofTyped? v <;> cases Value.ofTypedMembers rest <;> rfl

theorem toOption_readConfig {lim : Nat} {config : List (String × Value)} {j' : Json} (hs : (Value.map config).Storable)
    (hl : 2 ≤ lim) (h : ReadsBack lim (.object (config.map fun (k,v) => (k,v.toTyped))) j') :
    (readConfig j').toOption = if depthMembers (Value.toTypedMembers config) < lim - 1 then some config else none := by
  rw [← toTypedMembers_eq_map] at h
  rcases readsBack_object_iff.mp h with ⟨hl',-⟩ | ⟨-,ms',rfl,hms⟩
  · omega
  rw [readConfig_object,Value.toOption_map,Value.toOption_ofTypedMembers config (by omega) hs.2 hms]
  by_cases hd : depthMembers (Value.toTypedMembers config) < lim - 1
  · rw [if_pos hd,Option.map_some,Value.orderMembers_of_ascending hs.1]
  · rw [if_neg hd]
    rfl

theorem depth_opt_string (s : Option String) : (opt (s.map .string)).depth = 0 := by
  cases s <;> rfl

theorem depth_nodeJson (n : NodeSpec) : (nodeJson n).depth = depthMembers (Value.toTypedMembers n.config) + 2 := by
  have hpos : (opt (n.position.map fun p => .object [("x",.single p.x),("y",.single p.y)])).depth ≤ 1 := by
    cases n.position <;> simp [opt,depth,depthMembers]
  simp only [nodeJson,depth,depthMembers,depth_opt_string,← toTypedMembers_eq_map]
  omega

theorem toOption_readNode {lim : Nat} {n : NodeSpec} {j' : Json} (hn : n.Storable) (hl : 3 ≤ lim)
    (h : ReadsBack lim (nodeJson n) j') : (readNode j').toOption = if (nodeJson n).depth < lim then some n else none := by
  rcases readsBack_object_iff.mp h with ⟨hl',-⟩ | ⟨-,ms',rfl,hms⟩
  · omega
  obtain ⟨a,-,rfl,rfl,b,-,rfl,rfl,c,-,rfl,hc,d,-,rfl,hd,e,-,rfl,he,rfl⟩ := hms
  have hcfg := toOption_readConfig hn.config (by omega) hd
  rw [readNode_object,readUuid_string hn.id_lt,readsBack_opt_string hc,orNone_opt_string,
    orNone_position_readsBack (by omega) he,depth_nodeJson]
  by_cases hdep : depthMembers (Value.toTypedMembers n.config) < lim - 1 - 1
  · rw [if_pos hdep] at hcfg
    rw [if_pos (by omega),show orDefault (some d) [] readConfig = .ok n.config from toOption_eq_some hcfg]
    rfl
  · rw [if_neg hdep] at hcfg
    obtain ⟨err,herr⟩ := toOption_eq_none hcfg
    rw [if_neg (by omega),show orDefault (some d) [] readConfig = .error err from herr]
    rfl

theorem toOption_mapM_cons {ε α β : Type} (f : α → Except ε β) (x : α) (xs : List α) :
    ((x :: xs).mapM f).toOption = (f x).toOption.bind fun b => (xs.mapM f).toOption.map (b :: ·) := by
  rw [List.mapM_cons]
  cases f x <;> cases xs.mapM f <;> rfl

theorem toOption_readNodes (nodes : List NodeSpec) {lim : Nat} {items' : List Json} (hn : ∀ n ∈ nodes, n.Storable)
    (hl : 3 ≤ lim) (h : ReadsBackItems lim (nodes.map nodeJson) items') :
    (items'.mapM readNode).toOption = if depthItems (nodes.map nodeJson) < lim then some nodes else none := by
  induction nodes generalizing items' with
  | nil =>
    cases h
    rw [if_pos (by simp [depthItems]; omega)]
    rfl
  | cons n rest ih =>
    obtain ⟨j',rest',rfl,hj,hr⟩ := h
    rw [toOption_mapM_cons,toOption_readNode (hn n List.mem_cons_self) hl hj,
      ih (fun m hm => hn m (List.mem_cons_of_mem n hm)) hr]
    simp only [List.map_cons,depthItems,max_lt_iff]
    by_cases h1 : (nodeJson n).depth < lim <;> by_cases h2 : depthItems (rest.map nodeJson) < lim <;> simp [h1,h2]

theorem readConnections_readsBack (cs : List Connection) {lim : Nat} {items' : List Json}
    (hc : ∀ c ∈ cs, c.Storable) (hl : 2 ≤ lim) (h : ReadsBackItems lim (cs.map connectionJson) items') :
    items'.mapM readConnection = .ok cs := by
  induction cs generalizing items' with
  | nil =>
    cases h
    rfl
  | cons c rest ih =>
    obtain ⟨j',rest',rfl,hj,hr⟩ := h
    rw [List.mapM_cons,readConnection_readsBack (hc c List.mem_cons_self) hl hj,
      ih (fun d hd => hc d (List.mem_cons_of_mem c hd)) hr]
    rfl

theorem depthItems_connections (cs : List Connection) : depthItems (cs.map connectionJson) ≤ 1 := by
  induction cs with
  | nil => simp [depthItems]
  | cons c rest ih =>
    simp only [List.map_cons,depthItems]
    have hc : (connectionJson c).depth = 1 := by simp [connectionJson,depth,depthMembers,Json.nat]
    omega

theorem depth_toJson_lt_iff (g : Graph) {lim : Nat} (hl : 4 ≤ lim) :
    g.toJson.depth < lim ↔ depthItems (g.nodes.map nodeJson) + 2 < lim := by
  have hc := depthItems_connections g.connections
  have hs : (settingsJson g.settings).depth = 1 := by
    cases h : g.settings.joinTimeoutTicks <;> simp [settingsJson,h,opt,depth,depthMembers,Json.nat]
  simp only [toJson,depth,depthMembers,depth_opt_string,hs]
  omega

theorem toOption_ofJson? {lim : Nat} {g : Graph} {j' : Json} (hg : g.Storable) (hl : 5 ≤ lim)
    (h : ReadsBack lim g.toJson j') : (ofJson? j').toOption = if g.toJson.depth < lim then some g else none := by
  rcases readsBack_object_iff.mp h with ⟨hl',-⟩ | ⟨-,ms',rfl,hms⟩
  · omega
  obtain ⟨a,-,rfl,rfl,b,-,rfl,rfl,c,-,rfl,hc,d,-,rfl,hd,e,-,rfl,he,f,-,rfl,hf,rfl⟩ := hms
  rcases readsBack_array_iff.mp hd with ⟨hl',-⟩ | ⟨-,items',rfl,hitems⟩
  · omega
  rcases readsBack_array_iff.mp he with ⟨hl',-⟩ | ⟨-,cs',rfl,hcs⟩
  · omega
  have hnodes := toOption_readNodes g.nodes hg.nodes (by omega) hitems
  rw [ofJson?_object,readUuid_string hg.id_lt,readsBack_opt_string hc,orNone_opt_string,
    show orDefault (some (.array cs')) [] (readArray readConnection) = .ok g.connections from
      readConnections_readsBack g.connections hg.connections (by omega) hcs,
    show orDefault (some f) {} readSettings = .ok g.settings from readSettings_readsBack hg.settings (by omega) hf]
  have hdepth := depth_toJson_lt_iff g (show 4 ≤ lim by omega)
  by_cases hdep : depthItems (g.nodes.map nodeJson) < lim - 1 - 1
  · rw [if_pos hdep] at hnodes
    rw [if_pos (hdepth.mpr (by omega)),show readArray readNode (.array items') = .ok g.nodes from toOption_eq_some hnodes]
    rfl
  · rw [if_neg hdep] at hnodes
    obtain ⟨err,herr⟩ := toOption_eq_none hnodes
    rw [if_neg (mt hdepth.mp (by omega)),show readArray readNode (.array items') = .error err from herr]
    rfl

/-! ## The text of a graph -/

theorem writableItems_map {α : Type} {f : α → Json} {l : List α} (h : ∀ x ∈ l, Writable (f x)) :
    WritableItems (l.map f) := by
  induction l with
  | nil => trivial
  | cons x rest ih => exact ⟨h x List.mem_cons_self,ih fun y hy => h y (List.mem_cons_of_mem x hy)⟩

theorem writable_opt_string (s : Option String) : Writable (opt (s.map .string)) := by
  cases s <;> trivial

theorem writable_nodeJson {n : NodeSpec} (hn : n.Storable) : Writable (nodeJson n) := by
  have hcfg : WritableMembers (n.config.map fun (k,v) => (k,v.toTyped)) := by
    rw [← toTypedMembers_eq_map]
    exact Value.writable_toTypedMembers n.config hn.config.2
  have hpos : Writable (opt (n.position.map fun p => .object [("x",.single p.x),("y",.single p.y)])) := by
    cases h : n.position with
    | none => trivial
    | some p =>
      obtain ⟨hx,hy⟩ := hn.position_finite p h
      exact ⟨hx,hy,trivial⟩
  exact ⟨trivial,trivial,writable_opt_string n.name,hcfg,hpos,trivial⟩

theorem writable_connectionJson {c : Connection} (hc : c.Storable) : Writable (connectionJson c) := by
  have h1 := hc.fromPin_lt
  have h2 := hc.toPin_lt
  refine ⟨trivial,⟨?_,?_⟩,trivial,⟨?_,?_⟩,trivial⟩ <;> simp only [Nat.pow_eq] <;> push_cast <;> omega

theorem writable_settingsJson {s : GraphSettings} (hs : s.Storable) : Writable (settingsJson s) := by
  cases h : s.joinTimeoutTicks with
  | none => simp [settingsJson,h,opt,Writable,WritableMembers]
  | some t =>
    have ht := hs.timeout_lt t h
    simp only [settingsJson,h,Option.map_some,opt,Json.nat,Writable,WritableMembers,Nat.pow_eq]
    push_cast
    exact ⟨⟨by omega,by omega⟩,trivial,trivial⟩

theorem writable_toJson {g : Graph} (hg : g.Storable) : Writable g.toJson :=
  ⟨trivial,trivial,writable_opt_string g.description,writableItems_map fun n hn => writable_nodeJson (hg.nodes n hn),
    writableItems_map fun c hc => writable_connectionJson (hg.connections c hc),writable_settingsJson hg.settings,trivial⟩

theorem toOption_parse?_render {g : Graph} (hg : g.Storable) :
    (parse? g.render).toOption = if g.toJson.depth < Reader.depthLimit then some g else none := by
  obtain ⟨j',hj,hback⟩ := parseLoose_render (writable_toJson hg)
  have hread := toOption_ofJson? hg (by decide) hback
  rw [parse?,render,hj]
  dsimp only
  rw [← hread]
  cases ofJson? j' <;> rfl

/-- The text of a storable graph reads back as that very graph, every field as it was, while
its document nests less deeply than the reader allows; past that the reading is refused. -/
theorem parse?_render_within_depth_limit {g : Graph} (hg : g.Storable) :
    (g.toJson.depth < Reader.depthLimit → parse? g.render = .ok g) ∧
      (Reader.depthLimit ≤ g.toJson.depth → ∃ e, parse? g.render = .error e) := by
  have h := toOption_parse?_render hg
  constructor
  · intro hd
    rw [if_pos hd] at h
    exact toOption_eq_some h
  · intro hd
    rw [if_neg (by omega)] at h
    obtain ⟨e,he⟩ := toOption_eq_none h
    exact ⟨e,he⟩

/-- Two nodes: a start drawn at (1.5, -2.5), and a relay whose configuration holds a double, a
map and a list; the start's first output feeds the relay's last pin, and joins time out after
the largest 64-bit count. -/
def sampleGraph : Graph where
  id := ⟨0x11111111222233334444555555555555⟩
  name := "sample"
  description := some "a start wired into a relay"
  nodes := [
    { id := ⟨1⟩, nodeType := "flow.start", position := some ⟨⟨0x3FC00000⟩,⟨0xC0200000⟩⟩ },
    { id := ⟨2⟩, nodeType := "flow.relay", name := some "relay",
      config := [("gain",.float ⟨0x3FF8000000000000⟩),("limits",.map [("high",.int 9),("low",.int (-3))]),
        ("tags",.list [.string "a",.bool true,.null])] }]
  connections := [{ fromNode := ⟨1⟩, fromPin := 0, toNode := ⟨2⟩, toPin := 255 }]
  settings := { joinTimeoutTicks := some 18446744073709551615, strictOutputs := true }

theorem parse?_render_within_depth_limit_sample :
    sampleGraph.Storable ∧
      ((sampleGraph.toJson.depth < Reader.depthLimit → parse? sampleGraph.render = .ok sampleGraph) ∧
        (Reader.depthLimit ≤ sampleGraph.toJson.depth → ∃ e, parse? sampleGraph.render = .error e)) := by
  have hs : sampleGraph.Storable := by
    refine ⟨by decide,?_,?_,⟨?_⟩⟩
    · simp only [sampleGraph,List.mem_cons,List.not_mem_nil,or_false]
      rintro n (rfl | rfl)
      · exact ⟨by decide,⟨List.Pairwise.nil,trivial⟩,fun p hp => by cases hp; decide⟩
      · refine ⟨by decide,⟨by decide,?_⟩,nofun⟩
        exact ⟨(by decide : Binary64.isFinite ⟨0x3FF8000000000000⟩ = true),⟨by decide,trivial,trivial,trivial⟩,
          ⟨trivial,trivial,trivial,trivial⟩,trivial⟩
    · simp only [sampleGraph,List.mem_cons,List.not_mem_nil,or_false]
      rintro c rfl
      exact ⟨by decide,by decide,by decide,by decide⟩
    · intro t ht
      cases ht
      decide
  exact ⟨hs,parse?_render_within_depth_limit hs⟩

def nestedLists : Nat → Value
  | 0 => .null
  | k + 1 => .list [nestedLists k]

theorem storable_nestedLists (k : Nat) : (nestedLists k).Storable := by
  induction k with
  | zero => trivial
  | succ k ih => exact ⟨ih,trivial⟩

theorem depth_toTyped_nestedLists (k : Nat) : (nestedLists k).toTyped.depth = 2 * k + 1 := by
  induction k with
  | zero => rfl
  | succ k ih =>
    simp only [nestedLists,Value.toTyped,Value.toTypedItems,depth_typed,depth,depthItems,ih]
    omega

/-- One start node whose configuration holds sixty-two lists, each inside the one before. -/
def deepGraph : Graph where
  id := ⟨0x11111111222233334444555555555555⟩
  name := "deep"
  nodes := [{ id := ⟨1⟩, nodeType := "flow.start", config := [("deep",nestedLists 62)] }]

/-- A storable graph whose text is refused: its configuration nests its document 129 levels
deep, two past the 127 that the reader allows. -/
theorem deep_config_refused : deepGraph.Storable ∧ ∃ e, parse? deepGraph.render = .error e := by
  have hs : deepGraph.Storable := by
    refine ⟨by decide,?_,nofun,⟨nofun⟩⟩
    simp only [deepGraph,List.mem_cons,List.not_mem_nil,or_false]
    rintro n rfl
    exact ⟨by decide,⟨List.pairwise_singleton _ _,storable_nestedLists 62,trivial⟩,nofun⟩
  have hdeep : ¬deepGraph.toJson.depth < Reader.depthLimit := by
    rw [depth_toJson_lt_iff deepGraph (by decide)]
    simp [deepGraph,depthItems,depth_nodeJson,Value.toTypedMembers,depthMembers,depth_toTyped_nestedLists,
      Reader.depthLimit]
  have h := toOption_parse?_render hs
  rw [if_neg hdeep] at h
  exact ⟨hs,toOption_eq_none h⟩

end Graph

end Tickflow
