import Mathlib.Data.List.Infix

/-!
# Queues of messages that are read in parts

A queue holds for every message what is left of its content, together with its sender. A read
takes a part of the front message, and may tell a sender.

* `Messages.ReadsFrom`: the reads that respect the boundaries of the messages and tell the sender of
  the message they are from;
* `ReadsFrom.trans`, `ReadsFrom.exists_of_append`, `ReadsFrom.append`, `ReadsFrom.pieces`: how such
  reads compose;
* `ReadsFrom.exists_message`: what is read is in a message.
-/

namespace Messages

variable {α τ : Type*} {q q' q'' : List (List α × τ)} {rs rs' : List (List α × Option τ)}

/-- Reads from a queue, and what they leave of it: messages with nothing left are dropped, and every
read takes a part of the first message and tells no sender or the one of this message. -/
inductive ReadsFrom : List (List α × τ) → List (List α × Option τ) → List (List α × τ) → Prop
  /-- No read. -/
  | done (q : List (List α × τ)) : ReadsFrom q [] q
  /-- Nothing is left of the first message. -/
  | skip {q rs q' src} : ReadsFrom q rs q' → ReadsFrom (([], src) :: q) rs q'
  /-- A part of the first message is read. -/
  | take {q rs q' got rest src told} : got ≠ [] → (∀ x ∈ told, x = src) →
      ReadsFrom ((rest, src) :: q) rs q' →
        ReadsFrom ((got ++ rest, src) :: q) ((got, told) :: rs) q'

/-- Reads after reads. -/
theorem ReadsFrom.trans (h : ReadsFrom q rs q') (h' : ReadsFrom q' rs' q'') :
    ReadsFrom q (rs ++ rs') q'' := by
  induction h with
  | done q => exact h'
  | skip _ ih => exact .skip (ih h')
  | take hne htold _ ih => exact .take hne htold (ih h')

/-- Reads are made one after the other. -/
theorem ReadsFrom.exists_of_append (h : ReadsFrom q (rs ++ rs') q'') :
    ∃ q', ReadsFrom q rs q' ∧ ReadsFrom q' rs' q'' := by
  generalize hall : rs ++ rs' = all at h
  induction h generalizing rs with
  | done q =>
    obtain ⟨rfl, rfl⟩ := List.append_eq_nil_iff.1 hall
    exact ⟨q, .done q, .done q⟩
  | skip _ ih =>
    obtain ⟨q', hbefore, hafter⟩ := ih hall
    exact ⟨q', .skip hbefore, hafter⟩
  | @take q rs₀ q'' got rest src told hne htold hrest ih =>
    cases rs with
    | nil =>
      rw [List.nil_append] at hall
      exact ⟨_, .done _, hall ▸ .take hne htold hrest⟩
    | cons r rs =>
      obtain ⟨rfl, htail⟩ := List.cons.inj hall
      obtain ⟨q', hbefore, hafter⟩ := ih htail
      exact ⟨q', .take hne htold hbefore, hafter⟩

/-- More messages at the end of the queue stay there. -/
theorem ReadsFrom.append (h : ReadsFrom q rs q') (tail : List (List α × τ)) :
    ReadsFrom (q ++ tail) rs (q' ++ tail) := by
  induction h with
  | done q => exact .done _
  | skip _ ih => exact .skip ih
  | take hne htold _ ih => exact .take hne htold ih

/-- One more read of a message. -/
theorem ReadsFrom.read {got rest : List α} {src : τ} {told : Option τ}
    (h : ReadsFrom q rs ((got ++ rest, src) :: q')) (hne : got ≠ []) (htold : ∀ x ∈ told, x = src) :
    ReadsFrom q (rs ++ [(got, told)]) ((rest, src) :: q') :=
  h.trans (.take hne htold (.done _))

/-- A message with nothing left is dropped. -/
theorem ReadsFrom.drop {src : τ} (h : ReadsFrom q rs (([], src) :: q')) : ReadsFrom q rs q' := by
  have htrans := h.trans (.skip (.done q'))
  rwa [List.append_nil] at htrans

/-- A message that is read in pieces. -/
theorem ReadsFrom.pieces {src : τ} {gots : List (List α × Option τ)}
    (hgots : ∀ g ∈ gots, g.1 ≠ [] ∧ ∀ x ∈ g.2, x = src) :
    ReadsFrom [(gots.flatMap Prod.fst, src)] gots [] := by
  induction gots with
  | nil => exact .skip (.done [])
  | cons g gots ih =>
    obtain ⟨hne, htold⟩ := hgots g List.mem_cons_self
    exact .take hne htold (ih fun g' hg' => hgots g' (List.mem_cons_of_mem g hg'))

/-- A read is a part of one message, and what it tells is the sender of this message. -/
theorem ReadsFrom.exists_message (h : ReadsFrom q rs q') {got : List α} {told : Option τ}
    (hmem : (got, told) ∈ rs) : ∃ m ∈ q, got <:+: m.1 ∧ ∀ x ∈ told, x = m.2 := by
  induction h with
  | done q => cases hmem
  | skip _ ih =>
    obtain ⟨m, hm, hin⟩ := ih hmem
    exact ⟨m, List.mem_cons_of_mem _ hm, hin⟩
  | @take q rs q' part rest src told' _ htold _ ih =>
    rcases List.mem_cons.1 hmem with heq | hrest
    · cases heq
      exact ⟨_, List.mem_cons_self, (List.prefix_append got rest).isInfix, htold⟩
    · obtain ⟨m, hm, hin, hsrc⟩ := ih hrest
      rcases List.mem_cons.1 hm with rfl | hm
      · exact ⟨_, List.mem_cons_self, hin.trans (List.suffix_append part rest).isInfix, hsrc⟩
      · exact ⟨m, List.mem_cons_of_mem _ hm, hin, hsrc⟩

end Messages
