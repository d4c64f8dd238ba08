import Tickflow.Proofs.Firing
import Tickflow.Proofs.Lifecycle
import Tickflow.Proofs.StallRuns
/-! # Join timeouts

Between operations every slot carries its timing (`Slot.Timed`): it waited since no later than
the current tick, and unless latched it is marked exactly when it waited past the limit. A check
reports the joins whose wait has just run one tick past the limit, each once in its lifetime.
-/
namespace Tickflow

namespace Slot

/-- A slot's wait and mark read at `tick` under the limit `T`: its wait began no later than
`tick`, and unless it latched it is marked exactly when it has waited longer than the limit and
`slack` ticks more. -/
def Timed (T : Option Nat) (tick slack : Nat) (sl : Slot) : Prop :=
  (∀ w, sl.waitingSince = some w → w.toNat ≤ tick) ∧
    (sl.latched = false →
      (sl.timedOut = true ↔ ∃ w lim, sl.waitingSince = some w ∧ T = some lim ∧ lim + slack < tick - w.toNat))

variable {T : Option Nat} {tick slack : Nat} {sl : Slot}

theorem Timed.congr {sl' : Slot} (h : sl.Timed T tick slack) (hw : sl'.waitingSince = sl.waitingSince)
    (hl : sl'.latched = sl.latched) (ht : sl'.timedOut = sl.timedOut) : sl'.Timed T tick slack := by
  unfold Timed
  rw [hw,hl,ht]
  exact h

theorem timed_default : ({} : Slot).Timed T tick slack :=
  ⟨fun _ h => (by cases h),fun _ => by simp⟩

theorem timed_latch (sl : Slot) : { sl with latched := true,waitingSince := none }.Timed T tick slack :=
  ⟨fun _ h => (by cases h),fun h => (by cases h)⟩

theorem Timed.markWaiting (h : sl.Timed T tick slack) {t : UInt64} (ht : t.toNat = tick) :
    { sl with waitingSince := sl.waitingSince.orElse fun _ => some t }.Timed T tick slack := by
  cases hs : sl.waitingSince with
  | some w => exact h.congr (by simp [hs]) rfl rfl
  | none =>
    have hm : sl.latched = false → sl.timedOut = false := fun hl => by simpa [hs] using h.2 hl
    refine ⟨fun w hw => ?_,fun hl => ?_⟩
    · obtain rfl : t = w := by simpa using hw
      omega
    · simp [hm hl,ht]

theorem Timed.advance (h : sl.Timed T tick 0) : sl.Timed T (tick + 1) 1 := by
  refine ⟨fun w hw => Nat.le_succ_of_le (h.1 w hw),fun hl => (h.2 hl).trans ?_⟩
  constructor
  · rintro ⟨w,lim,hw,hT,hlt⟩
    have := h.1 w hw
    exact ⟨w,lim,hw,hT,by omega⟩
  · rintro ⟨w,lim,hw,hT,hlt⟩
    have := h.1 w hw
    exact ⟨w,lim,hw,hT,by omega⟩

theorem Timed.of_none (h : sl.Timed none tick slack) (slack' : Nat) : sl.Timed none tick slack' :=
  ⟨h.1,fun hl => by simpa using h.2 hl⟩

/-- Whether the check at the end of tick `t` finds a slot late: waiting, unmarked, and waiting
longer than the limit. -/
def late (lim : Nat) (t : UInt64) (sl : Slot) : Bool :=
  sl.isWaiting && !sl.timedOut && decide (lim < (t - sl.waitingSince.getD t).toNat)

/-- What the check at the end of a tick does to a slot: it marks it if it is late. -/
def check (lim : Nat) (t : UInt64) (sl : Slot) : Slot :=
  if sl.late lim t then { sl with timedOut := true } else sl

theorem Timed.check {lim : Nat} {t : UInt64} (h : sl.Timed (some lim) t.toNat 1) :
    (check lim t sl).Timed (some lim) t.toNat 0 := by
  obtain ⟨hle,hmark⟩ := h
  unfold Slot.check Slot.late
  split
  · rename_i hlate
    simp only [Slot.isWaiting,Bool.and_eq_true,Bool.not_eq_true',decide_eq_true_eq,Option.isSome_iff_exists] at hlate
    obtain ⟨⟨⟨⟨w,hw⟩,-⟩,-⟩,hlt⟩ := hlate
    rw [hw,Option.getD_some,UInt64.toNat_sub_of_le _ _ (UInt64.le_iff_toNat_le.mpr (hle w hw))] at hlt
    exact ⟨hle,fun _ => ⟨fun _ => ⟨w,lim,hw,rfl,by omega⟩,fun _ => rfl⟩⟩
  · rename_i hnot
    refine ⟨hle,fun hl => (hmark hl).trans ?_⟩
    constructor
    · rintro ⟨w,lim',hw,hT,hlt⟩
      exact ⟨w,lim',hw,hT,by omega⟩
    · rintro ⟨w,lim',hw,hT,hlt⟩
      obtain rfl := Option.some.inj hT
      cases hto : sl.timedOut
      · refine absurd ?_ hnot
        have hsub := UInt64.toNat_sub_of_le t w (UInt64.le_iff_toNat_le.mpr (hle w hw))
        have hlate : lim < t.toNat - w.toNat := by omega
        simp [Slot.isWaiting,hw,hl,hto,hsub,hlate]
      · exact ⟨w,lim,hw,rfl,by simpa [hto,hw] using (hmark hl).mp hto⟩

end Slot

namespace Ascending

variable {α : Type}

theorem insertMember_of_mem {l : List (SlotKey × α)} (h : Ascending l) {key : SlotKey} {v : α}
    (hm : (key,v) ∈ l) (v' : α) :
    Tickflow.insertMember key v' l = l.map fun e => if e.1 = key then (key,v') else e := by
  induction l with
  | nil => cases hm
  | cons e rest ih =>
    obtain ⟨k,w⟩ := e
    have hrest : ∀ y ∈ rest, compare k y.1 = .lt := fun y hy => List.rel_of_pairwise_cons h hy
    simp only [Tickflow.insertMember,List.map_cons]
    split
    · rename_i hlt
      exfalso
      rcases List.mem_cons.mp hm with he | hm'
      · obtain ⟨rfl,-⟩ := Prod.mk.inj he
        exact SlotKey.ne_of_compare_lt hlt rfl
      · exact SlotKey.ne_of_compare_lt (SlotKey.compare_lt_trans hlt (hrest _ hm')) rfl
    · rename_i heq
      obtain rfl : key = k := Std.LawfulEqOrd.eq_of_compare heq
      have hsame : rest.map (fun e => if e.1 = key then (key,v') else e) = rest := by
        refine (List.map_congr_left fun y hy => ?_).trans (List.map_id rest)
        rw [if_neg (SlotKey.ne_of_compare_lt (hrest y hy)).symm]
        rfl
      simp [hsame]
    · rename_i hgt
      have hne : k ≠ key := fun hk => by
        subst hk
        simp [Std.compare_self] at hgt
      have hm' : (key,v) ∈ rest := by
        rcases List.mem_cons.mp hm with he | hm'
        · exact absurd (Prod.mk.inj he).1.symm hne
        · exact hm'
      rw [ih h.of_cons hm',if_neg hne]

theorem alterMember_of_mem {l : List (SlotKey × α)} (h : Ascending l) {key : SlotKey} {v : α}
    (hm : (key,v) ∈ l) (d : α) (f : α → α) :
    Tickflow.alterMember key d f l = l.map fun e => if e.1 = key then (e.1,f e.2) else e := by
  rw [Tickflow.alterMember,h.lookupMember_of_mem hm,Option.getD_some,h.insertMember_of_mem hm]
  refine List.map_congr_left fun e he => ?_
  obtain ⟨k,w⟩ := e
  by_cases hk : k = key
  · subst hk
    have hw : some w = some v := (h.lookupMember_of_mem he).symm.trans (h.lookupMember_of_mem hm)
    cases hw
    simp
  · simp [hk]

end Ascending

theorem lookupMember_map_snd {κ α β : Type} [Ord κ] (key : κ) (f : α → β) (l : List (κ × α)) :
    lookupMember key (l.map fun e => (e.1,f e.2)) = (lookupMember key l).map f := by
  simp [lookupMember,List.find?_map,Function.comp_def,Option.map_map]

namespace ActivationStore

def Timed (T : Option Nat) (tick slack : Nat) (s : ActivationStore) : Prop :=
  ∀ n a sl, s.slot? n a = some sl → sl.Timed T tick slack

variable {T : Option Nat} {tick slack : Nat} {s : ActivationStore}

theorem Timed.of_slot? {s' : ActivationStore} (h : s.Timed T tick slack)
    (hs : ∀ n a sl, s'.slot? n a = some sl → s.slot? n a = some sl) : s'.Timed T tick slack :=
  fun n a sl hsl => h n a sl (hs n a sl hsl)

theorem Timed.of_slots_eq {s' : ActivationStore} (h : s.Timed T tick slack) (he : s'.slots = s.slots) :
    s'.Timed T tick slack :=
  h.of_slot? fun n a sl hsl => by rwa [slot?_of_slots_eq he] at hsl

theorem Timed.modifySlot (h : s.Timed T tick slack) (node : Nat) (act : UInt64) {f : Slot → Slot}
    (hf : ∀ sl, sl.Timed T tick slack → (f sl).Timed T tick slack) : (s.modifySlot node act f).Timed T tick slack := by
  intro n a sl hsl
  rw [slot?_modifySlot] at hsl
  split at hsl
  · obtain rfl := Option.some.inj hsl
    apply hf
    cases hs : s.slot? n a with
    | none => exact Slot.timed_default
    | some sl' => exact h n a sl' hs
  · exact h n a sl hsl

theorem Timed.takeState (h : s.Timed T tick slack) (node : Nat) (act : UInt64) :
    (s.takeState node act).2.Timed T tick slack := by
  intro n a sl hsl
  rw [slot?_takeState] at hsl
  split at hsl
  · obtain ⟨sl',hs',rfl⟩ := Option.map_eq_some_iff.mp hsl
    exact (h n a sl' hs').congr rfl rfl rfl
  · exact h n a sl hsl

theorem Timed.hold (h : s.Timed T tick slack) (node : Nat) (act seq : UInt64) (st : ActivationState) :
    (s.hold node act seq st).Timed T tick slack := by
  intro n a sl hsl
  rw [slot?_hold] at hsl
  split at hsl
  · exact h n a sl hsl
  · exact h.modifySlot node act (f := fun sl' =>
      { sl' with state := { sl'.state with arrivals := sl'.state.arrivals.union st.arrivals } })
      (fun sl' hsl' => hsl'.congr rfl rfl rfl) n a sl hsl

theorem Timed.writeBack (h : s.Timed T tick slack) (t : Token) (st : ExecState) (after : ActivationState)
    {now : UInt64} (hnow : now.toNat = tick) : (Instance.writeBack s t st after now).Timed T tick slack := by
  have hrestore := h.modifySlot t.node t.activation (f := fun sl =>
    { sl with state := { after with arrivals := after.arrivals.union sl.state.arrivals } })
    fun sl hsl => hsl.congr rfl rfl rfl
  cases st with
  | done =>
    refine h.of_slot? fun n a sl hsl => ?_
    rw [Instance.writeBack,slot?_retire] at hsl
    split at hsl
    · cases hsl
    · exact hsl
  | latched => exact hrestore.modifySlot t.node t.activation fun sl _ => Slot.timed_latch sl
  | waiting => exact hrestore.modifySlot t.node t.activation fun sl hsl => hsl.markWaiting hnow
  | executing => exact h.hold t.node t.activation t.seq after

end ActivationStore

namespace ActivationStore

theorem slots_foldl_mark (L : List (UInt64 × Nat × UInt64)) {s : ActivationStore} (hs : s.Sorted)
    (hex : ∀ e ∈ L, s.slot? e.2.1 e.1 ≠ none) :
    (L.foldl (fun s e => s.modifySlot e.2.1 e.1 fun sl => { sl with timedOut := true }) s).slots =
      s.slots.map fun e =>
        if L.any (fun x => decide ((⟨x.1,x.2.1⟩ : SlotKey) = e.1)) then (e.1,{ e.2 with timedOut := true }) else e := by
  induction L generalizing s with
  | nil => simp
  | cons x rest ih =>
    obtain ⟨sl,hsl⟩ := Option.ne_none_iff_exists'.mp (hex x List.mem_cons_self)
    have h1 : (s.modifySlot x.2.1 x.1 fun sl => { sl with timedOut := true }).slots =
        s.slots.map fun e => if e.1 = ⟨x.1,x.2.1⟩ then (e.1,{ e.2 with timedOut := true }) else e :=
      Ascending.alterMember_of_mem hs (mem_of_lookupMember hsl) {} fun sl => { sl with timedOut := true }
    have hex' : ∀ e ∈ rest, (s.modifySlot x.2.1 x.1 fun sl => { sl with timedOut := true }).slot? e.2.1 e.1 ≠ none := by
      intro e he
      rw [slot?_modifySlot]
      split
      · exact Option.some_ne_none _
      · exact hex e (List.mem_cons_of_mem x he)
    rw [List.foldl_cons,ih (hs.modifySlot _ _ _) hex',h1,List.map_map]
    refine List.map_congr_left fun e _ => ?_
    rw [Function.comp_apply,List.any_cons]
    by_cases hk : e.1 = ⟨x.1,x.2.1⟩
    · rw [if_pos hk,hk]
      simp
    · have hk' : ¬(⟨x.1,x.2.1⟩ : SlotKey) = e.1 := fun h => hk h.symm
      rw [if_neg hk,decide_eq_false hk',Bool.false_or]

end ActivationStore

namespace Instance

variable {T : Option Nat} {tick slack : Nat}

theorem timed_invoke {m : Instance} (h : m.store.Timed T tick slack) (n : CompiledNode) (t : Token) (dt : Binary64) :
    (m.invoke n t dt).2.store.Timed T tick slack := by
  rw [(invoke_eq m n t dt).2]
  cases lookupMember t.seq m.store.parked with
  | some _ => exact h.of_slots_eq (ActivationStore.resume_slots _ _)
  | none => exact h.takeState _ _

theorem timed_process {m : Instance} (h : m.store.Timed T m.tick.toNat slack) (t : Token) (dt : Binary64) :
    (m.process t dt).2.2.store.Timed T m.tick.toNat slack := by
  cases hn : m.graph.node? t.node with
  | none => rwa [process_store_of_absorbed (Or.inl hn)]
  | some node =>
    cases hl : m.store.isLatched t.node t.activation with
    | true => rwa [process_store_of_absorbed (Or.inr hl)]
    | false => exact ((timed_invoke h node t dt).writeBack t _ _ rfl).of_slots_eq (process_store hn hl).1

theorem timed_settle {k : Instance} (h : k.store.Timed T tick slack) (t : Token) (keep : Bool) :
    (k.settle t keep).store.Timed T tick slack :=
  h.of_slot? fun n a sl hsl => by
    rw [settle_slot?] at hsl
    split at hsl
    · cases hsl
    · exact hsl

theorem timed_deliver {m : Instance} (h : m.store.Timed T m.tick.toNat slack) (t : Token) (dt : Binary64) :
    (m.deliver t dt).2.store.Timed T m.tick.toNat slack := by
  rw [deliver_eq]
  exact timed_settle (timed_process h t dt) t _

theorem timed_deliverAll {m : Instance} (h : m.store.Timed T m.tick.toNat slack) (batch : List Token)
    (dt : Binary64) : (m.deliverAll batch dt).2.store.Timed T m.tick.toNat slack := by
  induction batch generalizing m with
  | nil => exact h
  | cons t rest ih =>
    have ht : (m.deliver t dt).2.tick = m.tick := (deliver_spec m t dt).2.1.tick
    rw [deliverAll_cons,← ht]
    exact ih (ht ▸ timed_deliver h t dt)

theorem sorted_deliverAll {m : Instance} (h : m.store.Sorted) (batch : List Token) (dt : Binary64) :
    (m.deliverAll batch dt).2.store.Sorted := by
  induction batch generalizing m with
  | nil => exact h
  | cons t rest ih => exact ih (sorted_deliver h t dt)

theorem timed_tickStart {i : Instance} (h : i.store.Timed T i.tick.toNat 0) (hw : i.tick.toNat + 1 < 2 ^ 64) :
    i.tickStart.store.Timed T i.tickStart.tick.toNat 1 := by
  have ht : i.tickStart.tick.toNat = i.tick.toNat + 1 := by
    simp only [tickStart,UInt64.toNat_add,UInt64.toNat_one]
    exact Nat.mod_eq_of_lt hw
  rw [ht]
  exact fun n a sl hsl => (h n a sl hsl).advance

theorem mem_waiting_iff {s : ActivationStore} (hs : s.Sorted) {act : UInt64} {idx : Nat} {sl : Slot} :
    (act,idx,sl) ∈ s.waiting ↔ s.slot? idx act = some sl ∧ sl.isWaiting = true := by
  unfold ActivationStore.waiting
  constructor
  · intro h
    obtain ⟨⟨k,sl'⟩,hk,he⟩ := List.mem_map.mp h
    obtain ⟨hk,hw⟩ := List.mem_filter.mp hk
    simp only [Prod.mk.injEq] at he
    obtain ⟨rfl,rfl,rfl⟩ := he
    exact ⟨Ascending.lookupMember_of_mem hs hk,hw⟩
  · rintro ⟨hsl,hw⟩
    exact List.mem_map.mpr ⟨(⟨act,idx⟩,sl),List.mem_filter.mpr ⟨mem_of_lookupMember hsl,hw⟩,rfl⟩

theorem checkJoinTimeouts_slots (i : Instance) (hs : i.store.Sorted) {lim : Nat}
    (hT : i.graph.settings.joinTimeoutTicks = some lim) :
    i.checkJoinTimeouts.store.slots = i.store.slots.map fun e => (e.1,Slot.check lim i.tick e.2) := by
  unfold checkJoinTimeouts
  rw [hT]
  dsimp only
  rw [foldl_only_reports _ (fun k e => by obtain ⟨_,_,_⟩ := e; rfl)]
  dsimp only
  rw [ActivationStore.slots_foldl_mark _ hs]
  · refine List.map_congr_left fun e he => ?_
    obtain ⟨k,sl⟩ := e
    have hk : i.store.slot? k.node k.activation = some sl := Ascending.lookupMember_of_mem hs he
    unfold Slot.check
    split
    · rename_i hany
      obtain ⟨x,hx,hxk⟩ := List.any_eq_true.mp hany
      obtain ⟨⟨act,idx,sl'⟩,hy,hG⟩ := List.mem_filterMap.mp hx
      obtain ⟨hsl',hw⟩ := (mem_waiting_iff hs).mp hy
      dsimp only at hG
      split at hG
      · rename_i hlate
        obtain rfl := (Option.some.inj hG).symm
        have hkey : (⟨act,idx⟩ : SlotKey) = k := of_decide_eq_true hxk
        subst hkey
        have hsl : sl' = sl := Option.some.inj (hsl'.symm.trans hk)
        subst hsl
        have hlate' : sl'.late lim i.tick = true := by
          simp only [Slot.late,hw,Bool.true_and]
          simpa using hlate
        simp [hlate']
      · cases hG
    · rename_i hany
      have hlate : sl.late lim i.tick = false := by
        by_contra hl
        apply hany
        simp only [Slot.late,Bool.not_eq_false,Bool.and_eq_true] at hl
        obtain ⟨⟨hw,hto⟩,hlt⟩ := hl
        refine List.any_eq_true.mpr ⟨(k.activation,k.node,i.tick - sl.waitingSince.getD i.tick),?_,by simp⟩
        refine List.mem_filterMap.mpr ⟨(k.activation,k.node,sl),(mem_waiting_iff hs).mpr ⟨hk,hw⟩,?_⟩
        simp [hto,decide_eq_true_eq.mp hlt]
      simp [hlate]
  · intro e he
    obtain ⟨⟨act,idx,sl⟩,hx,hf⟩ := List.mem_filterMap.mp he
    dsimp only at hf
    split at hf
    · cases hf
      exact ActivationStore.slot?_of_mem_waiting hx
    · cases hf

theorem timed_checkJoinTimeouts {i : Instance} (h : i.store.Timed i.graph.settings.joinTimeoutTicks i.tick.toNat 1)
    (hs : i.store.Sorted) :
    i.checkJoinTimeouts.store.Timed i.graph.settings.joinTimeoutTicks i.tick.toNat 0 := by
  cases hT : i.graph.settings.joinTimeoutTicks with
  | none =>
    have hi : i.checkJoinTimeouts = i := by
      unfold checkJoinTimeouts
      rw [hT]
    rw [hi]
    rw [hT] at h
    exact fun n a sl hsl => (h n a sl hsl).of_none 0
  | some lim =>
    rw [hT] at h
    intro n a sl hsl
    unfold ActivationStore.slot? at hsl
    rw [checkJoinTimeouts_slots i hs hT,lookupMember_map_snd] at hsl
    obtain ⟨sl',hsl',rfl⟩ := Option.map_eq_some_iff.mp hsl
    exact (h n a sl' hsl').check

end Instance

def EngineEvent.isJoinTimedOut : EngineEvent → Bool
  | .joinTimedOut .. => true
  | _ => false

def WaitingJoin.timedOut (w : WaitingJoin) : EngineEvent := .joinTimedOut w.node w.activation w.waitingTicks

namespace Slot

@[simp] theorem check_isWaiting (lim : Nat) (t : UInt64) (sl : Slot) : (check lim t sl).isWaiting = sl.isWaiting := by
  unfold check
  split <;> rfl

@[simp] theorem check_waitingSince (lim : Nat) (t : UInt64) (sl : Slot) :
    (check lim t sl).waitingSince = sl.waitingSince := by
  unfold check
  split <;> rfl

@[simp] theorem check_state (lim : Nat) (t : UInt64) (sl : Slot) : (check lim t sl).state = sl.state := by
  unfold check
  split <;> rfl

end Slot

theorem map_filterMap_eq_map_filter {α β γ δ : Type} (l : List α) (G : α → Option β) (ev : β → δ) (W : α → γ)
    (P : γ → Bool) (E : γ → δ) (h : ∀ y ∈ l, (G y).map ev = if P (W y) then some (E (W y)) else none) :
    (l.filterMap G).map ev = ((l.map W).filter P).map E := by
  induction l with
  | nil => rfl
  | cons y rest ih =>
    have hy := h y List.mem_cons_self
    have ih' := ih fun z hz => h z (List.mem_cons_of_mem y hz)
    rw [List.filterMap_cons,List.map_cons,List.filter_cons]
    cases hG : G y with
    | none =>
      rw [hG,Option.map_none] at hy
      by_cases hP : P (W y) = true
      · rw [if_pos hP] at hy
        cases hy
      · rw [if_neg hP]
        exact ih'
    | some b =>
      rw [hG,Option.map_some] at hy
      by_cases hP : P (W y) = true
      · rw [if_pos hP] at hy
        rw [if_pos hP,List.map_cons,List.map_cons,ih',Option.some.inj hy]
      · rw [if_neg hP] at hy
        cases hy

namespace Instance

open Publishes

theorem waitingJoins_checkJoinTimeouts (i : Instance) (hs : i.store.Sorted) :
    i.checkJoinTimeouts.waitingJoins = i.waitingJoins := by
  cases hT : i.graph.settings.joinTimeoutTicks with
  | none =>
    unfold checkJoinTimeouts
    rw [hT]
  | some lim =>
    have hf := (checkJoinTimeouts_frame i).1
    unfold waitingJoins ActivationStore.waiting
    rw [checkJoinTimeouts_slots i hs hT,hf.graph,hf.tick,List.filter_map,List.map_map,List.map_map,List.map_map]
    have hfilter : i.store.slots.filter ((fun e : SlotKey × Slot => e.2.isWaiting) ∘
        fun e => (e.1,Slot.check lim i.tick e.2)) = i.store.slots.filter fun e => e.2.isWaiting :=
      List.filter_congr fun e _ => by simp
    rw [hfilter]
    refine List.map_congr_left fun e _ => ?_
    simp

theorem publishes_deliver_timeouts (i : Instance) (t : Token) (dt : Binary64) :
    Publishes EngineEvent.isJoinTimedOut i (i.deliver t dt).2 [] := by
  have h := (publishes_process (p := EngineEvent.isJoinTimedOut) (fun _ _ => rfl) i t dt).trans
    (publishes_settle (fun _ _ _ _ => rfl) _ t (i.process t dt).2.1)
  rw [deliver_eq]
  split at h <;> [split at h; skip] <;> simpa [EngineEvent.isJoinTimedOut] using h

theorem publishes_deliverAll_timeouts (i : Instance) (batch : List Token) (dt : Binary64) :
    Publishes EngineEvent.isJoinTimedOut i (i.deliverAll batch dt).2 [] := by
  induction batch generalizing i with
  | nil => exact Publishes.refl i
  | cons t rest ih =>
    rw [deliverAll_cons]
    simpa using (publishes_deliver_timeouts i t dt).trans (ih _)

theorem publishes_foldl_joinTimedOut (late : List (UInt64 × Nat × UInt64)) (k : Instance) :
    Publishes EngineEvent.isJoinTimedOut k
      (late.foldl (fun i e => i.emit (.joinTimedOut (i.graph.nodeId e.2.1) e.1 e.2.2)) k)
      (late.map fun e => EngineEvent.joinTimedOut (k.graph.nodeId e.2.1) e.1 e.2.2) := by
  induction late generalizing k with
  | nil => exact Publishes.refl k
  | cons e rest ih =>
    rw [List.foldl_cons,List.map_cons,← List.singleton_append]
    exact (Publishes.of_push_true rfl rfl).trans (ih _)

theorem late_eq_waitingJoins {i : Instance} {lim : Nat} (h : i.store.Timed (some lim) i.tick.toNat 1)
    (hs : i.store.Sorted) :
    (i.store.waiting.filterMap fun x =>
        if (!x.2.2.timedOut && decide ((i.tick - x.2.2.waitingSince.getD i.tick).toNat > lim)) = true then
          some (x.1,x.2.1,i.tick - x.2.2.waitingSince.getD i.tick)
        else none).map (fun e => EngineEvent.joinTimedOut (i.graph.nodeId e.2.1) e.1 e.2.2) =
      (i.waitingJoins.filter fun w => w.waitingTicks.toNat = lim + 1).map WaitingJoin.timedOut := by
  unfold waitingJoins
  refine map_filterMap_eq_map_filter _ _ _ _ _ _ fun y hy => ?_
  obtain ⟨act,idx,sl⟩ := y
  obtain ⟨hsl,hw⟩ := (mem_waiting_iff hs).mp hy
  obtain ⟨hle,hmark⟩ := h idx act sl hsl
  simp only [Slot.isWaiting,Bool.and_eq_true,Bool.not_eq_true',Option.isSome_iff_exists] at hw
  obtain ⟨⟨w,hw⟩,hl⟩ := hw
  have hsub : (i.tick - w).toNat = i.tick.toNat - w.toNat :=
    UInt64.toNat_sub_of_le _ _ (UInt64.le_iff_toNat_le.mpr (hle w hw))
  have hto : sl.timedOut = decide (lim + 1 < i.tick.toNat - w.toNat) := by
    have hm := hmark hl
    simp only [hw,Option.some.injEq,exists_and_left,exists_eq_left'] at hm
    cases hx : sl.timedOut <;> simp_all
  simp only [hw,Option.getD_some,hsub,hto]
  by_cases hlim : i.tick.toNat - w.toNat = lim + 1
  · simp [hlim,WaitingJoin.timedOut]
  · by_cases hlt : lim + 1 < i.tick.toNat - w.toNat
    · simp [hlim,hlt]
    · have hle' : ¬lim < i.tick.toNat - w.toNat := by omega
      simp [hlim,hlt,hle']

theorem publishes_checkJoinTimeouts {i : Instance} {lim : Nat} (hT : i.graph.settings.joinTimeoutTicks = some lim)
    (h : i.store.Timed (some lim) i.tick.toNat 1) (hs : i.store.Sorted) :
    Publishes EngineEvent.isJoinTimedOut i i.checkJoinTimeouts
      ((i.waitingJoins.filter fun w => w.waitingTicks.toNat = lim + 1).map WaitingJoin.timedOut) := by
  rw [← late_eq_waitingJoins h hs]
  unfold checkJoinTimeouts
  rw [hT]
  dsimp only
  exact (Publishes.of_eq rfl).trans (publishes_foldl_joinTimedOut _ _)

theorem checkJoinTimeouts_of_none {i : Instance} (hT : i.graph.settings.joinTimeoutTicks = none) :
    i.checkJoinTimeouts = i := by
  unfold checkJoinTimeouts
  rw [hT]

theorem publishes_activate_timeouts (i : Instance) (idx : Nat) :
    Publishes EngineEvent.isJoinTimedOut i (i.activate idx).2 [] := by
  unfold activate
  split
  · exact Publishes.of_eq rfl
  · exact Publishes.of_push_false rfl rfl

theorem publishes_startEntry_timeouts (acc : List UInt64 × Option ScriptError × Instance) (idx : Nat) :
    Publishes EngineEvent.isJoinTimedOut acc.2.2 (startEntry acc idx).2.2 [] := by
  obtain ⟨acts,err,k⟩ := acc
  cases err with
  | some e => exact Publishes.refl k
  | none =>
    simp only [startEntry]
    cases ht : k.trigger (k.graph.nodeId idx) with
    | error e => exact Publishes.refl k
    | ok r =>
      obtain ⟨act,j⟩ := r
      obtain ⟨idx',-,-,-,-,hact⟩ := trigger_eq_ok ht
      have hp := publishes_activate_timeouts k idx'
      rw [hact] at hp
      exact hp

theorem publishes_timeouts_of_ne_tick (i : Instance) {op : HostOp} (hop : ∀ dt, op ≠ .tick dt) :
    Publishes EngineEvent.isJoinTimedOut i (i.perform op) [] := by
  cases op with
  | tick dt => exact absurd rfl (hop dt)
  | trigger node =>
    cases ht : i.trigger node with
    | error e =>
      simp only [perform,ht]
      exact Publishes.refl i
    | ok r =>
      obtain ⟨act,j⟩ := r
      obtain ⟨idx,-,-,-,-,hact⟩ := trigger_eq_ok ht
      have hp := publishes_activate_timeouts i idx
      rw [hact] at hp
      simpa only [perform,ht] using hp
  | start =>
    have key : ∀ (es : List Nat) (acc : List UInt64 × Option ScriptError × Instance),
        Publishes EngineEvent.isJoinTimedOut acc.2.2 (es.foldl startEntry acc).2.2 [] := by
      intro es
      induction es with
      | nil => exact fun acc => Publishes.refl _
      | cons idx rest ih =>
        intro acc
        rw [List.foldl_cons]
        simpa using (publishes_startEntry_timeouts acc idx).trans (ih (startEntry acc idx))
    exact key i.graph.entries ([],none,i)
  | abort =>
    show Publishes _ i i.abort []
    unfold abort
    split
    · exact Publishes.refl i
    · exact Publishes.of_push_false rfl rfl
  | cancel => exact Publishes.of_eq rfl
  | setVariable name v => exact Publishes.of_eq rfl

theorem timed_delivered {i : Instance} (dt : Binary64) (h : i.store.Timed i.graph.settings.joinTimeoutTicks i.tick.toNat 0)
    (hso : i.store.Sorted) (hw : i.tick.toNat + 1 < 2 ^ 64) :
    let k := (i.tickStart.deliverAll i.tokens dt).2
    k.store.Timed k.graph.settings.joinTimeoutTicks k.tick.toNat 1 ∧ k.store.Sorted ∧ k.graph = i.graph := by
  intro k
  have hf := deliverAll_frame i.tickStart i.tokens dt
  have h1 := timed_deliverAll (timed_tickStart h hw) i.tokens dt
  rw [← hf.tick,← show i.tickStart.graph = i.graph from rfl,← hf.graph] at h1
  exact ⟨h1,sorted_deliverAll (m := i.tickStart) hso i.tokens dt,hf.graph⟩

section Tick

variable {i : Instance} (dt : Binary64) (hc : i.cancelled = false) (hs : i.status = .running)
include hc hs

theorem step_of_check :
    let j := (i.tickStart.deliverAll i.tokens dt).2.checkJoinTimeouts
    (i.step dt).2.store = j.store ∧ (i.step dt).2.graph = j.graph ∧ (i.step dt).2.tick = j.tick ∧
      Publishes EngineEvent.isJoinTimedOut j (i.step dt).2 [] := by
  simp only [step,hc,hs,Bool.false_eq_true,if_false,ne_eq,not_true_eq_false]
  simp only [tickEnd]
  split
  · exact ⟨rfl,rfl,rfl,Publishes.of_push_false rfl rfl⟩
  · exact ⟨rfl,rfl,rfl,Publishes.refl _⟩

theorem timed_step (h : i.store.Timed i.graph.settings.joinTimeoutTicks i.tick.toNat 0) (hso : i.store.Sorted)
    (hw : i.tick.toNat + 1 < 2 ^ 64) :
    (i.step dt).2.store.Timed i.graph.settings.joinTimeoutTicks (i.step dt).2.tick.toNat 0 ∧
      (i.step dt).2.store.Sorted := by
  obtain ⟨hst,-,ht,-⟩ := step_of_check dt hc hs
  obtain ⟨h1,hso1,hg1⟩ := timed_delivered dt h hso hw
  have h2 := timed_checkJoinTimeouts h1 hso1
  rw [hg1] at h2
  rw [hst,ht,(checkJoinTimeouts_frame _).1.tick]
  exact ⟨h2,sorted_checkJoinTimeouts hso1⟩

theorem publishes_step_timeouts (h : i.store.Timed i.graph.settings.joinTimeoutTicks i.tick.toNat 0)
    (hso : i.store.Sorted) (hw : i.tick.toNat + 1 < 2 ^ 64) :
    Publishes EngineEvent.isJoinTimedOut i (i.step dt).2
      ((i.graph.settings.joinTimeoutTicks.map fun lim =>
        ((i.step dt).2.waitingJoins.filter fun w => w.waitingTicks.toNat = lim + 1).map WaitingJoin.timedOut).getD []) := by
  obtain ⟨hst,hg,ht,hend⟩ := step_of_check dt hc hs
  obtain ⟨h1,hso1,hgraph⟩ := timed_delivered dt h hso hw
  have hdel : Publishes EngineEvent.isJoinTimedOut i (i.tickStart.deliverAll i.tokens dt).2 [] :=
    (Publishes.of_eq (j := i.tickStart) rfl).trans (publishes_deliverAll_timeouts _ _ _)
  cases hT : i.graph.settings.joinTimeoutTicks with
  | none =>
    rw [← hgraph] at hT
    have := hdel.trans ((Publishes.of_eq (by rw [checkJoinTimeouts_of_none hT])).trans hend)
    simpa using this
  | some lim =>
    rw [← hgraph] at hT
    rw [hT] at h1
    have hcheck := publishes_checkJoinTimeouts hT h1 hso1
    have hwj : (i.step dt).2.waitingJoins = (i.tickStart.deliverAll i.tokens dt).2.waitingJoins := by
      rw [← waitingJoins_checkJoinTimeouts _ hso1]
      unfold waitingJoins
      rw [hst,hg,ht]
    rw [Option.map_some,Option.getD_some,hwj]
    simpa using hdel.trans (hcheck.trans hend)

end Tick

theorem timed_perform {i : Instance} (h : i.store.Timed i.graph.settings.joinTimeoutTicks i.tick.toNat 0)
    (hso : i.store.Sorted) (hw : i.tick.toNat + 1 < 2 ^ 64) (op : HostOp) :
    (i.perform op).store.Timed (i.perform op).graph.settings.joinTimeoutTicks (i.perform op).tick.toNat 0 ∧
      (i.perform op).store.Sorted := by
  rw [perform_graph]
  have other : ∀ op, (∀ dt, op ≠ .tick dt) →
      (i.perform op).store.Timed i.graph.settings.joinTimeoutTicks (i.perform op).tick.toNat 0 ∧
        (i.perform op).store.Sorted := by
    intro op hop
    have ht : (i.perform op).tick = i.tick := by
      rw [tick_perform]
      cases op with
      | tick dt => exact absurd rfl (hop dt)
      | _ => rfl
    rw [ht]
    rcases perform_slots_of_ne_tick i hop with ⟨hs,-⟩ | ⟨hs,-⟩
    · exact ⟨h.of_slots_eq hs,hso.of_slots_eq hs⟩
    · refine ⟨fun n a sl hsl => ?_,?_⟩
      · unfold ActivationStore.slot? at hsl
        rw [hs] at hsl
        cases hsl
      · unfold ActivationStore.Sorted
        rw [hs]
        exact List.Pairwise.nil
  refine perform_cases i other (fun dt hc hs => timed_step dt hc hs h hso hw) (fun dt hc hs => ?_) (fun dt hc => ?_) op
  · rw [perform_tick_of_stopped i dt hc hs]
    exact ⟨h,hso⟩
  · rw [perform_tick_of_cancelled i dt hc]
    exact other .abort fun _ h => by cases h

theorem publishes_perform_timeouts {i : Instance} (h : i.store.Timed i.graph.settings.joinTimeoutTicks i.tick.toNat 0)
    (hso : i.store.Sorted) (hw : i.tick.toNat + 1 < 2 ^ 64) (op : HostOp) :
    Publishes EngineEvent.isJoinTimedOut i (i.perform op)
      (if i.ticks op then
        (i.graph.settings.joinTimeoutTicks.map fun lim =>
          ((i.perform op).waitingJoins.filter fun w => w.waitingTicks.toNat = lim + 1).map WaitingJoin.timedOut).getD []
      else []) := by
  refine perform_cases i (fun op hop => ?_) (fun dt hc hs => ?_) (fun dt hc hs => ?_) (fun dt hc => ?_) op
  · have hno : i.ticks op = false := by
      cases op with
      | tick dt => exact absurd rfl (hop dt)
      | _ => rfl
    rw [hno,if_neg Bool.false_ne_true]
    exact publishes_timeouts_of_ne_tick i hop
  · have hyes : i.ticks (.tick dt) = true := by simp [ticks,hc,hs]
    rw [hyes,if_pos rfl]
    exact publishes_step_timeouts dt hc hs h hso hw
  · have hno : i.ticks (.tick dt) = false := by simp [ticks,hc,hs]
    rw [hno,if_neg Bool.false_ne_true,perform_tick_of_stopped i dt hc hs]
    exact Publishes.refl i
  · have hno : i.ticks (.tick dt) = false := by simp [ticks,hc]
    rw [hno,if_neg Bool.false_ne_true,perform_tick_of_cancelled i dt hc]
    exact publishes_timeouts_of_ne_tick i fun _ h => by cases h

end Instance

end Tickflow
