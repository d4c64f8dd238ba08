import Tickflow.Proofs.Lifecycle
import Tickflow.Proofs.Activations
import Tickflow.Proofs.Wiring
/-! # Triggering entries

A trigger checks, in order, the instance's status, the node and that it is an entry; a failed
check leaves the instance as it was. On a compiled graph `start` either fails before changing
anything or starts one activation per entry, numbered on consecutively.
-/
namespace Tickflow

namespace CompiledGraph

theorem indexOf?_eq_none_iff (g : CompiledGraph) (x : Uuid) :
    g.indexOf? x = none ↔ ∀ n ∈ g.nodes.toList, n.spec.id ≠ x := by
  unfold indexOf?
  rw [Array.findIdx?_eq_none_iff]
  simp

variable {reg : Registry} {doc : Graph} {g : CompiledGraph}

theorem indexOf?_of_node? (hc : compile reg doc = .ok g) {idx : Nat} {n : CompiledNode}
    (hn : g.node? idx = some n) : g.indexOf? n.spec.id = some idx := by
  have hspec : doc.nodes[idx]? = some n.spec := by
    rw [← specs_of_compile hc,List.getElem?_map,Array.getElem?_toList]
    exact congrArg (Option.map (·.spec)) hn
  rw [indexOf?_of_compile hc]
  exact Graph.position?_of_getElem? (checked_of_compile hc).1 hspec

theorem mem_entries_iff (hc : compile reg doc = .ok g) (idx : Nat) :
    idx ∈ g.entries ↔ ∃ n, g.node? idx = some n ∧ n.classification = .entry := by
  rw [entries_of_compile hc,List.mem_filter,List.mem_range]
  constructor
  · rintro ⟨-,he⟩
    cases hn : g.node? idx with
    | none => simp [hn] at he
    | some n => exact ⟨n,rfl,by simpa [hn] using he⟩
  · rintro ⟨n,hn,he⟩
    exact ⟨(Array.getElem?_eq_some_iff.mp hn).1,by simp [hn,he]⟩

theorem indexOf?_nodeId_of_entry (hc : compile reg doc = .ok g) {idx : Nat} (he : idx ∈ g.entries) :
    g.indexOf? (g.nodeId idx) = some idx := by
  obtain ⟨n,hn,-⟩ := (mem_entries_iff hc idx).mp he
  rw [nodeId,hn]
  exact indexOf?_of_node? hc hn

end CompiledGraph

namespace Instance

def Stopped (i : Instance) : Prop := i.status = .aborted ∨ i.cancelled = true

variable {i : Instance} {x : Uuid}

theorem trigger_of_unknown (hs : ¬i.Stopped) (h : i.graph.indexOf? x = none) :
    i.trigger x = .error (.unknownNode x) := by
  have hs' : i.status ≠ .aborted ∧ i.cancelled = false := by simpa [Stopped] using hs
  simp [trigger,hs',h,throw,throwThe,MonadExceptOf.throw]

theorem trigger_of_not_entry {idx : Nat} (hs : ¬i.Stopped) (h : i.graph.indexOf? x = some idx)
    (he : idx ∉ i.graph.entries) : i.trigger x = .error (.notAnEntry x) := by
  have hs' : i.status ≠ .aborted ∧ i.cancelled = false := by simpa [Stopped] using hs
  simp [trigger,hs',h,he,throw,throwThe,MonadExceptOf.throw,bind,Except.bind]

theorem trigger_of_entry {idx : Nat} (hs : ¬i.Stopped) (h : i.graph.indexOf? x = some idx)
    (he : idx ∈ i.graph.entries) : i.trigger x = .ok (i.activate idx) := by
  have hs' : i.status ≠ .aborted ∧ i.cancelled = false := by simpa [Stopped] using hs
  simp [trigger,hs',h,he,pure,Except.pure]

theorem activate_fst (i : Instance) (idx : Nat) : (i.activate idx).1 = i.store.lastId + 1 := by
  obtain ⟨k,-,-,-,-,-,-,-,-,-,-,he⟩ := activate_eq i idx
  rw [he]

theorem perform_trigger_of_error {e : ScriptError} (h : i.trigger x = .error e) :
    i.perform (.trigger x) = i := by
  simp [perform,h]

section Entries

variable {reg : Registry} {doc : Graph} {g : CompiledGraph} (hc : CompiledGraph.compile reg doc = .ok g)
include hc

theorem foldl_startEntry_of_live (es : List Nat) (hes : ∀ idx ∈ es, idx ∈ g.entries) (acts : List UInt64)
    (k : Instance) (hg : k.graph = g) (hk : ¬k.Stopped) :
    let r := es.foldl startEntry (acts,none,k)
    ∃ fresh : List Token, r.1 = acts ++ fresh.map (·.activation) ∧ r.2.1 = none ∧
      r.2.2.pending = k.pending ++ fresh ∧ r.2.2.running = k.running ∧
      fresh.map (fun u => (u.node,u.pin)) = es.map (·,0) ∧ (es ≠ [] → r.2.2.status = .running) := by
  induction es generalizing acts k with
  | nil => exact ⟨[],by simp,rfl,by simp,rfl,rfl,fun h => absurd rfl h⟩
  | cons idx rest ih =>
    dsimp only
    rw [List.foldl_cons]
    have he := hes idx List.mem_cons_self
    have ht : k.trigger (k.graph.nodeId idx) = .ok (k.activate idx) :=
      trigger_of_entry hk (by rw [hg]; exact CompiledGraph.indexOf?_nodeId_of_entry hc he) (hg ▸ he)
    obtain ⟨hr,hp,-,hgj⟩ := activate_births k idx
    have hact : Activated k (k.activate idx).2 := Activated.of_trigger ht
    simp only [startEntry,ht]
    obtain ⟨fresh,h1,h2,h3,h4,h5,-⟩ := ih (fun j hj => hes j (List.mem_cons_of_mem idx hj))
      (acts ++ [(k.activate idx).1]) (k.activate idx).2 (hgj.trans hg)
      (by rw [Stopped,hact.status,hact.cancelled,hact.live.2]; simp)
    refine ⟨⟨k.nextSeq,idx,0,k.store.lastId + 1⟩ :: fresh,?_,h2,?_,h4.trans hr,?_,fun _ => ?_⟩
    · rw [h1,activate_fst]
      simp
    · rw [h3,hp]
      simp
    · simp [h5]
    · rcases foldl_startEntry_activated rest (acts ++ [(k.activate idx).1]) (k.activate idx).2 with
        ⟨-,heq⟩ | ⟨-,hlater⟩
      · rw [heq]
        exact hact.status
      · exact hlater.status

end Entries

theorem start_of_stopped (hs : i.Stopped) (hne : i.graph.entries ≠ []) :
    i.start = ([],some .instanceAborted,i) := by
  obtain ⟨idx,rest,he⟩ := List.exists_cons_of_ne_nil hne
  rw [start,he,List.foldl_cons]
  simp only [startEntry,trigger_of_stopped hs]
  exact foldl_startEntry_error [] _ i rest

end Instance

open Instance in
/-- Triggering fails atomically and mints consecutively, at every reachable instance of a
compiled graph while fewer than `2 ^ 64` activation numbers are minted. A trigger of `x` fails
with the first check that does not hold: the instance is aborted or cancelled, `x` is no node's
identifier, or its node is not an entry; a failed trigger leaves the instance as it was.
Otherwise it returns the number after the last one minted by a trigger or a back edge, one more
than the count of those, queues one token on pin 0 of the entry under it, and leaves the
instance running. `start` on an aborted or cancelled instance fails at its first entry and
changes nothing; on any other it triggers every entry in definition order, returning
consecutive ascending numbers. -/
theorem triggers_fail_atomically {reg : Registry} {doc : Graph} {i : Instance} {hist : List Birth}
    (hl : Lineage i hist) (hc : CompiledGraph.compile reg doc = .ok i.graph)
    (hK : hist.countP (·.mints) + i.graph.entries.length < 2 ^ 64) :
    (∀ x : Uuid,
      (i.Stopped → i.trigger x = .error .instanceAborted) ∧
      (¬i.Stopped → (∀ n ∈ i.graph.nodes.toList, n.spec.id ≠ x) → i.trigger x = .error (.unknownNode x)) ∧
      (¬i.Stopped → ∀ idx n, i.graph.node? idx = some n → n.spec.id = x → n.classification ≠ .entry →
        i.trigger x = .error (.notAnEntry x)) ∧
      (∀ e, i.trigger x = .error e → i.perform (.trigger x) = i) ∧
      (¬i.Stopped → ∀ idx n, i.graph.node? idx = some n → n.spec.id = x → n.classification = .entry →
        ∃ j, i.trigger x = .ok (i.store.lastId + 1,j) ∧ (i.store.lastId + 1).toNat = hist.countP (·.mints) + 1 ∧
          j.status = .running ∧ j.running = i.running ∧
          j.pending = i.pending ++ [⟨i.nextSeq,idx,0,i.store.lastId + 1⟩] ∧ j.store.lastId = i.store.lastId + 1)) ∧
    (i.Stopped → i.graph.entries ≠ [] → i.start = ([],some .instanceAborted,i)) ∧
    (¬i.Stopped → ∃ fresh : List Token, i.start.1 = fresh.map (·.activation) ∧ i.start.2.1 = none ∧
      i.start.2.2.pending = i.pending ++ fresh ∧ i.start.2.2.running = i.running ∧
      fresh.map (fun u => (u.node,u.pin)) = i.graph.entries.map (·,0) ∧
      fresh.map (·.activation.toNat) = List.range' (hist.countP (·.mints) + 1) i.graph.entries.length ∧
      (i.graph.entries ≠ [] → i.start.2.2.status = .running)) := by
  obtain ⟨r,hr⟩ := CompiledGraph.compile_ranked hc
  have hlast : i.store.lastId.toNat = hist.countP (·.mints) := by
    rw [((hl.traced hr).last_eq),Nat.mod_eq_of_lt (by omega)]
  refine ⟨fun x => ⟨fun hs => trigger_of_stopped hs x,fun hs hall => ?_,fun hs idx n hn hid hcl => ?_,
    fun e he => perform_trigger_of_error he,fun hs idx n hn hid hcl => ?_⟩,start_of_stopped,fun hs => ?_⟩
  · exact trigger_of_unknown hs ((CompiledGraph.indexOf?_eq_none_iff _ _).mpr hall)
  · refine trigger_of_not_entry hs (hid ▸ CompiledGraph.indexOf?_of_node? hc hn) fun he => hcl ?_
    obtain ⟨n',hn',hcl'⟩ := (CompiledGraph.mem_entries_iff hc idx).mp he
    rw [hn] at hn'
    cases hn'
    exact hcl'
  · have he : idx ∈ i.graph.entries := (CompiledGraph.mem_entries_iff hc idx).mpr ⟨n,hn,hcl⟩
    have ht := trigger_of_entry hs (hid ▸ CompiledGraph.indexOf?_of_node? hc hn) he
    obtain ⟨hrun,hp,hl',-⟩ := activate_births i idx
    have hpos : 0 < i.graph.entries.length := List.length_pos_of_mem he
    refine ⟨(i.activate idx).2,by rw [ht,← activate_fst],?_,(Activated.of_trigger ht).status,hrun,hp,hl'⟩
    rw [UInt64.toNat_add,hlast]
    exact Nat.mod_eq_of_lt (by simp; omega)
  · obtain ⟨fresh,h1,h2,h3,h4,h5,h6⟩ :=
      foldl_startEntry_of_live hc i.graph.entries (fun _ h => h) [] i rfl hs
    obtain ⟨fresh',-,hp',hacts,-,-⟩ := foldl_startEntry_births i.graph.entries [] i
    have hf : fresh' = fresh := List.append_cancel_left (hp'.symm.trans h3)
    subst hf
    have hlen : fresh'.length = i.graph.entries.length := by
      simpa using congrArg List.length h5
    refine ⟨fresh',by rw [start,h1,List.nil_append],h2,h3,h4,h5,?_,h6⟩
    rw [hacts,hlast,hlen]
    exact map_mod_range'_of_le (by omega)

/-- The law at the loop graph started and ticked three times: the trigger minted activation 1
and the back edge 2 and 3, so the next trigger mints 4. -/
theorem triggers_fail_atomically_loop :
    let ops := [HostOp.start,.tick Binary64.zero,.tick Binary64.zero,.tick Binary64.zero]
    let i := (Instance.create loopGraph false).run ops
    let hist := [] ++ (Instance.create loopGraph false).runBirths ops
    Lineage i hist ∧ CompiledGraph.compile Registry.standard loopDoc = .ok i.graph ∧
      hist.countP (·.mints) + i.graph.entries.length < 2 ^ 64 ∧
      hist.map (·.token.activation.toNat) = [1,1,2,3] ∧ hist.countP (·.mints) = 3 ∧
      ((∀ x : Uuid,
        (i.Stopped → i.trigger x = .error .instanceAborted) ∧
        (¬i.Stopped → (∀ n ∈ i.graph.nodes.toList, n.spec.id ≠ x) → i.trigger x = .error (.unknownNode x)) ∧
        (¬i.Stopped → ∀ idx n, i.graph.node? idx = some n → n.spec.id = x → n.classification ≠ .entry →
          i.trigger x = .error (.notAnEntry x)) ∧
        (∀ e, i.trigger x = .error e → i.perform (.trigger x) = i) ∧
        (¬i.Stopped → ∀ idx n, i.graph.node? idx = some n → n.spec.id = x → n.classification = .entry →
          ∃ j, i.trigger x = .ok (i.store.lastId + 1,j) ∧ (i.store.lastId + 1).toNat = hist.countP (·.mints) + 1 ∧
            j.status = .running ∧ j.running = i.running ∧
            j.pending = i.pending ++ [⟨i.nextSeq,idx,0,i.store.lastId + 1⟩] ∧ j.store.lastId = i.store.lastId + 1)) ∧
      (i.Stopped → i.graph.entries ≠ [] → i.start = ([],some .instanceAborted,i)) ∧
      (¬i.Stopped → ∃ fresh : List Token, i.start.1 = fresh.map (·.activation) ∧ i.start.2.1 = none ∧
        i.start.2.2.pending = i.pending ++ fresh ∧ i.start.2.2.running = i.running ∧
        fresh.map (fun u => (u.node,u.pin)) = i.graph.entries.map (·,0) ∧
        fresh.map (·.activation.toNat) = List.range' (hist.countP (·.mints) + 1) i.graph.entries.length ∧
        (i.graph.entries ≠ [] → i.start.2.2.status = .running))) := by
  intro ops i hist
  have hl : Lineage i hist := (Lineage.create loopGraph false []).run ops
  have hc : CompiledGraph.compile Registry.standard loopDoc = .ok i.graph := by
    rw [run_graph]
    exact compile_loopDoc
  have hK : hist.countP (·.mints) + i.graph.entries.length < 2 ^ 64 := by decide +kernel
  have hacts : hist.map (·.token.activation.toNat) = [1,1,2,3] := by decide +kernel
  have hmints : hist.countP (·.mints) = 3 := by decide +kernel
  exact ⟨hl,hc,hK,hacts,hmints,triggers_fail_atomically hl hc hK⟩

end Tickflow
