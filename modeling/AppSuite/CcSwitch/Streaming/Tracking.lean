import AppSuite.CcSwitch.Streaming.Convert

/-!
This module contains what the state of the conversion says about the events that were sent.
-/

namespace CcSwitch.Proxy.Streaming

open List

structure FlagsOk (out : List Event) (hasSentMessageStart hasSentMessageStop hasEmittedMessageDelta : Bool)
    (pendingMessageDelta : Option (Option Str × Option AnthropicUsage)) : Prop where
  messageStart : sentMessageStart out = hasSentMessageStart
  messageStop : sentMessageStop out = hasSentMessageStop
  messageDelta : sentMessageDelta out = true →
    hasSentMessageStop = true ∧ hasEmittedMessageDelta = true ∧ pendingMessageDelta = none
  pending : pendingMessageDelta ≠ none → hasEmittedMessageDelta = true

structure BlocksOk (opened started : List UInt32) (next : UInt32) (current : Option UInt32)
    (tools : OrderedMap Nat ToolBlockState) (openTools : OrderedSet UInt32) : Prop where
  blocks : ∀ i, i ∈ opened ↔ current = some i ∨ i ∈ openTools.elems
  opened : ∀ i ∈ opened, i ∈ started
  used : ∀ i ∈ started, i < next
  disjoint : ∀ i, current = some i → i ∉ openTools.elems
  reserved : ∀ k b, tools.get? k = some b → b.anthropicIndex < next
  apart : ∀ k k' b b', tools.get? k = some b → tools.get? k' = some b' →
    b.anthropicIndex = b'.anthropicIndex → k = k'
  unstarted : ∀ k b, tools.get? k = some b → b.started = false → b.anthropicIndex ∉ started
  separate : ∀ k b, tools.get? k = some b → current ≠ some b.anthropicIndex

def Event.isContent : Event → Bool
  | contentBlockStart _ _ => true
  | contentBlockDelta _ _ => true
  | contentBlockStop _ => true
  | _ => false

theorem Event.flags_of_isContent {e : Event} (he : e.isContent = true)
    : e.isMessageStart = false ∧ e.isMessageDelta = false ∧ e.isMessageStop = false := by
  cases e <;> first | exact ⟨rfl, rfl, rfl⟩ | contradiction

namespace FlagsOk

variable {out : List Event} {messageStart messageStop messageDelta : Bool}
  {pending : Option (Option Str × Option AnthropicUsage)}

theorem concat (h : FlagsOk out messageStart messageStop messageDelta pending)
    (he : e.isMessageDelta = false)
    : FlagsOk (out ++ [e]) (messageStart || e.isMessageStart) (messageStop || e.isMessageStop) messageDelta
      pending := by
  constructor
  . rw [sentMessageStart_concat, h.messageStart]
  . rw [sentMessageStop_concat, h.messageStop]
  . rw [sentMessageDelta_concat, he, Bool.or_false]
    intro hsent
    obtain ⟨hstop, hrest⟩ := h.messageDelta hsent
    exact ⟨by rw [hstop, Bool.true_or], hrest⟩
  . exact h.pending

theorem content (h : FlagsOk out messageStart messageStop messageDelta pending)
    (he : e.isContent = true)
    : FlagsOk (out ++ [e]) messageStart messageStop messageDelta pending := by
  obtain ⟨hstart, hdelta, hstop⟩ := Event.flags_of_isContent he
  have hconcat := h.concat hdelta
  rwa [hstart, hstop, Bool.or_false, Bool.or_false] at hconcat

theorem start (h : FlagsOk out messageStart messageStop messageDelta pending) (id model : Str)
    (usage : AnthropicUsage)
    : FlagsOk (out ++ [.messageStart id model usage]) true messageStop messageDelta pending := by
  simpa [Event.isMessageStart, Event.isMessageStop] using h.concat (e := .messageStart id model usage) rfl

theorem stop (h : FlagsOk out messageStart messageStop messageDelta none)
    : FlagsOk (out ++ [.messageStop]) messageStart true messageDelta none := by
  simpa [Event.isMessageStart, Event.isMessageStop] using h.concat (e := .messageStop) rfl

theorem complete (h : FlagsOk out messageStart messageStop messageDelta pending) (hpending : pending ≠ none)
    (stopReason : Option Str) (usage : AnthropicUsage)
    : FlagsOk (out ++ [.messageDelta stopReason usage] ++ [.messageStop]) messageStart true messageDelta
      none := by
  have hemitted := h.pending hpending
  constructor
  . rw [sentMessageStart_concat, sentMessageStart_concat]
    exact (Bool.or_false _).trans ((Bool.or_false _).trans h.messageStart)
  . rw [sentMessageStop_concat]
    exact Bool.or_true _
  . intro _
    exact ⟨rfl, hemitted, rfl⟩
  . intro _
    exact hemitted

theorem stops (h : FlagsOk out messageStart messageStop messageDelta pending) (is : List UInt32)
    : FlagsOk (out ++ is.map .contentBlockStop) messageStart messageStop messageDelta pending := by
  induction is generalizing out with
  | nil =>
    rw [map_nil, append_nil]
    exact h
  | cons i is ih =>
    rw [map_cons, ← singleton_append, ← List.append_assoc]
    exact ih (h.content rfl)

end FlagsOk

/-! The indices are given out in ascending order, as long as there are any. -/

theorem lt_add_one_iff (h : n.toNat + 1 < UInt32.size) {i : UInt32}
    : i < n + 1 ↔ i < n ∨ i = n := by
  have hadd : (n + 1).toNat = n.toNat + 1 := by
    exact Nat.mod_eq_of_lt h
  rw [UInt32.lt_iff_toNat_lt, UInt32.lt_iff_toNat_lt, ← UInt32.toNat_inj, hadd]
  omega

namespace BlocksOk

variable {opened started : List UInt32} {next : UInt32} {current : Option UInt32}
  {tools : OrderedMap Nat ToolBlockState} {openTools : OrderedSet UInt32}

variable {i : UInt32}

theorem opened_lt (h : BlocksOk opened started next current tools openTools) (hi : i ∈ opened)
    : i < next := by
  exact h.used i (h.opened i hi)

theorem opened_eq_nil_iff (h : BlocksOk opened started next current tools openTools)
    : opened = [] ↔ current = none ∧ openTools.elems = [] := by
  simp only [eq_nil_iff_forall_not_mem, h.blocks, not_or, Option.eq_none_iff_forall_ne_some]
  exact forall_and

theorem startCurrent (h : BlocksOk opened started next none tools openTools)
    (hnext : next.toNat + 1 < UInt32.size)
    : BlocksOk (opened ++ [next]) (started ++ [next]) (next + 1) (some next) tools openTools := by
  have hreserved : ∀ k b, tools.get? k = some b → b.anthropicIndex ≠ next := by
    intro k b hb heq
    have := h.reserved k b hb
    rw [heq] at this
    exact absurd this (UInt32.lt_irrefl next)
  constructor
  . intro i
    rw [mem_append, mem_singleton, h.blocks, Option.some_inj, eq_comm (a := next)]
    simp [or_comm]
  . intro i hi
    rw [mem_append] at hi ⊢
    exact hi.imp_left (h.opened i)
  . intro i hi
    rw [mem_append, mem_singleton] at hi
    rw [lt_add_one_iff hnext]
    exact hi.imp_left (h.used i)
  . intro i hi hmem
    injection hi with hi
    have := h.opened_lt ((h.blocks i).mpr (.inr hmem))
    rw [hi] at this
    exact absurd this (UInt32.lt_irrefl i)
  . intro k b hb
    rw [lt_add_one_iff hnext]
    exact .inl (h.reserved k b hb)
  . exact h.apart
  . intro k b hb hstarted hmem
    rw [mem_append, mem_singleton] at hmem
    cases hmem with
    | inl hmem => exact h.unstarted k b hb hstarted hmem
    | inr heq => exact hreserved k b hb heq
  . intro k b hb heq
    injection heq with heq
    exact hreserved k b hb heq.symm

theorem stopCurrent (h : BlocksOk opened started next (some i) tools openTools)
    : BlocksOk (opened.filter (· ≠ i)) started next none tools openTools := by
  refine { h with disjoint := nofun, separate := nofun, blocks := ?_, opened := ?_ }
  . intro j
    rw [List.mem_filter, h.blocks, decide_eq_true_iff]
    constructor
    . rintro ⟨hj | hj, hne⟩
      . injection hj with hj
        exact absurd hj.symm hne
      . exact .inr hj
    . rintro (hj | hj)
      . contradiction
      . refine ⟨.inr hj, ?_⟩
        rintro rfl
        exact h.disjoint j rfl hj
  . intro j hj
    exact h.opened j (List.mem_filter.mp hj).1

section

variable (h : BlocksOk opened started next current tools openTools)

include h

theorem enterTool
    (hk : tools.get? k = none) (hnext : next.toNat + 1 < UInt32.size)
    : BlocksOk opened started (next + 1) current (tools.set k (.new next)) openTools := by
  have hentry : ∀ k' b, (tools.set k (.new next)).get? k' = some b →
      (k' = k ∧ b.anthropicIndex = next) ∨ (k' ≠ k ∧ tools.get? k' = some b ∧ b.anthropicIndex < next) := by
    intro k' b hb
    rcases OrderedMap.get?_set_eq_some hb with ⟨rfl, rfl⟩ | ⟨hne, hb⟩
    . exact .inl ⟨rfl, rfl⟩
    . exact .inr ⟨hne, hb, h.reserved k' b hb⟩
  refine { h with used := ?_, reserved := ?_, apart := ?_, unstarted := ?_, separate := ?_ }
  . intro i hi
    rw [lt_add_one_iff hnext]
    exact .inl (h.used i hi)
  . intro k' b hb
    rw [lt_add_one_iff hnext]
    cases hentry k' b hb with
    | inl hnew => exact .inr hnew.2
    | inr hold => exact .inl hold.2.2
  . intro k₁ k₂ b₁ b₂ h₁ h₂ heq
    obtain ⟨rfl, hnew₁⟩ | ⟨hne₁, hold₁, hlt₁⟩ := hentry k₁ b₁ h₁
    . obtain ⟨rfl, _⟩ | ⟨_, _, hlt₂⟩ := hentry k₂ b₂ h₂
      . rfl
      . rw [← heq, hnew₁] at hlt₂
        exact absurd hlt₂ (UInt32.lt_irrefl next)
    . obtain ⟨rfl, hnew₂⟩ | ⟨_, hold₂, _⟩ := hentry k₂ b₂ h₂
      . rw [heq, hnew₂] at hlt₁
        exact absurd hlt₁ (UInt32.lt_irrefl next)
      . exact h.apart k₁ k₂ b₁ b₂ hold₁ hold₂ heq
  . intro k' b hb hstarted hmem
    obtain ⟨_, hnew⟩ | ⟨_, hold, _⟩ := hentry k' b hb
    . rw [hnew] at hmem
      exact absurd (h.used next hmem) (UInt32.lt_irrefl next)
    . exact h.unstarted k' b hold hstarted hmem
  . intro k' b hb heq
    obtain ⟨_, hnew⟩ | ⟨_, hold, _⟩ := hentry k' b hb
    . have := h.opened_lt ((h.blocks b.anthropicIndex).mpr (.inl heq))
      rw [hnew] at this
      exact absurd this (UInt32.lt_irrefl next)
    . exact h.separate k' b hold heq

theorem mapTools
    (htools : ∀ k b', tools'.get? k = some b' → ∃ b, tools.get? k = some b ∧
      b'.anthropicIndex = b.anthropicIndex ∧ (b'.started = false → b.started = false))
    : BlocksOk opened started next current tools' openTools := by
  refine { h with reserved := ?_, apart := ?_, unstarted := ?_, separate := ?_ }
  . intro k b' hb'
    obtain ⟨b, hb, hindex, _⟩ := htools k b' hb'
    rw [hindex]
    exact h.reserved k b hb
  . intro k₁ k₂ b₁' b₂' h₁ h₂ heq
    obtain ⟨b₁, hb₁, hindex₁, _⟩ := htools k₁ b₁' h₁
    obtain ⟨b₂, hb₂, hindex₂, _⟩ := htools k₂ b₂' h₂
    rw [hindex₁, hindex₂] at heq
    exact h.apart k₁ k₂ b₁ b₂ hb₁ hb₂ heq
  . intro k b' hb' hstarted
    obtain ⟨b, hb, hindex, hkeeps⟩ := htools k b' hb'
    rw [hindex]
    exact h.unstarted k b hb (hkeeps hstarted)
  . intro k b' hb'
    obtain ⟨b, hb, hindex, _⟩ := htools k b' hb'
    rw [hindex]
    exact h.separate k b hb

theorem startTool (hlt : i < next)
    (hcurrent : current ≠ some i)
    (hothers : ∀ k b, tools.get? k = some b → b.started = false → b.anthropicIndex ≠ i)
    : BlocksOk (opened ++ [i]) (started ++ [i]) next current tools (openTools.add i) := by
  refine { h with blocks := ?_, opened := ?_, used := ?_, disjoint := ?_, unstarted := ?_ }
  . intro j
    rw [mem_append, mem_singleton, h.blocks, OrderedSet.mem_add, or_assoc]
  . intro j hj
    rw [mem_append] at hj ⊢
    exact hj.imp_left (h.opened j)
  . rw [forall_mem_append, forall_mem_singleton]
    exact ⟨h.used, hlt⟩
  . intro j hj hmem
    rw [OrderedSet.mem_add] at hmem
    cases hmem with
    | inl hmem => exact h.disjoint j hj hmem
    | inr heq =>
      rw [heq] at hj
      exact hcurrent hj
  . intro k b hb hstarted hmem
    rw [mem_append, mem_singleton] at hmem
    cases hmem with
    | inl hmem => exact h.unstarted k b hb hstarted hmem
    | inr heq => exact hothers k b hb hstarted heq

theorem stopTools
    (hopened : ∀ i, i ∈ opened' ↔ i ∈ opened ∧ i ∉ openTools.elems)
    : BlocksOk opened' started next current tools .empty := by
  refine { h with disjoint := nofun, blocks := ?_, opened := ?_ }
  . intro i
    rw [hopened, h.blocks]
    constructor
    . rintro ⟨hi | hi, hnot⟩
      . exact .inl hi
      . contradiction
    . rintro (hi | hi)
      . exact ⟨.inl hi, h.disjoint i hi⟩
      . contradiction
  . intro i hi
    exact h.opened i ((hopened i).mp hi).1

end

end BlocksOk

end CcSwitch.Proxy.Streaming
