import Mathlib.Logic.Function.Basic
import Mathlib.Data.List.Nodup
import Mathlib.Tactic.Common

/-! Doubly linked lists whose links are kept by the nodes: linking a node after the last one and
unlinking a node. -/
namespace Cheetah

section SiblingList

variable {α : Type*} {left right : α → Option α} {l : List α} {a b : α}

/-- The links of the nodes of a list point at their neighbours. -/
def Linked (left right : α → Option α) (l : List α) : Prop :=
  ∀ l₁ a l₂, l = l₁ ++ a :: l₂ → left a = l₁.getLast? ∧ right a = l₂.head?

theorem linked_nil : Linked left right [] := by
  intro l₁ a l₂ h
  simp at h

theorem Linked.left_eq {l₁ l₂ : List α} (h : Linked left right (l₁ ++ a :: l₂)) :
    left a = l₁.getLast? :=
  (h l₁ a l₂ rfl).1

theorem Linked.right_eq {l₁ l₂ : List α} (h : Linked left right (l₁ ++ a :: l₂)) :
    right a = l₂.head? :=
  (h l₁ a l₂ rfl).2

/-- Only the links of the nodes matter. -/
theorem Linked.congr {left' right' : α → Option α} (h : Linked left right l)
    (hl : ∀ b ∈ l, left' b = left b) (hr : ∀ b ∈ l, right' b = right b) :
    Linked left' right' l := by
  intro l₁ b l₂ heq
  have hmem : b ∈ l := by rw [heq]; simp
  rw [hl b hmem, hr b hmem]
  exact h l₁ b l₂ heq

theorem Linked.left_mem (h : Linked left right l) (ha : a ∈ l) (hb : left a = some b) : b ∈ l := by
  obtain ⟨l₁, l₂, rfl⟩ := List.append_of_mem ha
  rw [h.left_eq] at hb
  exact List.mem_append_left _ (List.mem_of_getLast? hb)

theorem Linked.right_mem (h : Linked left right l) (ha : a ∈ l) (hb : right a = some b) :
    b ∈ l := by
  obtain ⟨l₁, l₂, rfl⟩ := List.append_of_mem ha
  rw [h.right_eq] at hb
  exact List.mem_append_right _ (List.mem_cons_of_mem _ (List.mem_of_head? hb))

/-- No node to the left of a node: it is the first. -/
theorem Linked.first (h : Linked left right l) (ha : a ∈ l) (hb : left a = none) :
    ∃ l₂, l = a :: l₂ := by
  obtain ⟨l₁, l₂, rfl⟩ := List.append_of_mem ha
  rw [h.left_eq, List.getLast?_eq_none_iff] at hb
  exact ⟨l₂, by rw [hb]; rfl⟩

theorem Linked.pred (h : Linked left right l) (ha : a ∈ l) (hb : left a = some b) :
    ∃ l₁ l₂, l = l₁ ++ b :: a :: l₂ := by
  obtain ⟨l₁, l₂, rfl⟩ := List.append_of_mem ha
  rw [h.left_eq, List.getLast?_eq_some_iff] at hb
  obtain ⟨l₀, rfl⟩ := hb
  exact ⟨l₀, l₂, by simp⟩

theorem getLast?_middle (l₁ l₂ : List α) : (l₁ ++ b :: (l₂ ++ [a])).getLast? = some a := by
  have hassoc : l₁ ++ b :: (l₂ ++ [a]) = (l₁ ++ b :: l₂) ++ [a] := by simp
  rw [hassoc, List.getLast?_concat]

variable [DecidableEq α]

/-- A store through a pointer that may be null. -/
def storeAt {β : Type*} (f : α → β) (p : Option α) (x : β) : α → β :=
  match p with
  | some b => Function.update f b x
  | none => f

theorem storeAt_of_ne {β : Type*} {f : α → β} {p : Option α} {x : β} (hb : p ≠ some b) :
    storeAt f p x b = f b := by
  cases p with
  | none => rfl
  | some c => exact Function.update_of_ne (fun h => hb (by rw [h])) _ _

@[simp] theorem storeAt_some {β : Type*} {f : α → β} {x : β} : storeAt f (some b) x b = x :=
  Function.update_self _ _ _

/-- The right links after the node to the left of `a` is linked to the one to its right. -/
def bypassRight (left right : α → Option α) (a : α) : α → Option α :=
  storeAt right (left a) (right a)

def bypassLeft (left right : α → Option α) (a : α) : α → Option α :=
  storeAt left (right a) (left a)

/-- A new node becomes the last one. -/
theorem Linked.link (h : Linked left right l) (hnodup : l.Nodup) (ha : a ∉ l)
    (hright : right a = none) :
    Linked (Function.update left a l.getLast?) (storeAt right l.getLast? (some a)) (l ++ [a]) := by
  intro l₁ b l₂ heq
  have hlast : l.getLast? ≠ some a := fun hmem => ha (List.mem_of_getLast? hmem)
  rcases List.eq_nil_or_concat' l₂ with rfl | ⟨l₃, c, rfl⟩
  · obtain ⟨rfl, hab⟩ := List.append_inj' heq rfl
    obtain rfl : a = b := by simpa using hab
    exact ⟨Function.update_self _ _ _, by rw [storeAt_of_ne hlast]; exact hright⟩
  · have heq' : l ++ [a] = (l₁ ++ b :: l₃) ++ [c] := by simpa using heq
    obtain ⟨rfl, hac⟩ := List.append_inj' heq' rfl
    obtain rfl : a = c := by simpa using hac
    have hba : b ≠ a := fun hba => ha (by simp [hba])
    refine ⟨by rw [Function.update_of_ne hba]; exact h.left_eq, ?_⟩
    have hr := h.right_eq
    rcases List.eq_nil_or_concat' l₃ with rfl | ⟨l₄, d, rfl⟩
    · have hlast : (l₁ ++ [b]).getLast? = some b := by simp
      rw [hlast]
      exact storeAt_some
    · have hbd : b ≠ d := by
        intro hbd
        rw [List.nodup_append] at hnodup
        have hcons := (List.nodup_cons.mp hnodup.2.1).1
        exact hcons (by simp [hbd])
      rw [getLast?_middle, storeAt_of_ne (by simpa using Ne.symm hbd), hr]
      cases l₄ <;> simp

/-- Unlinking a node leaves its former neighbours linked to each other. -/
theorem Linked.unlink {l₁ l₂ : List α} (h : Linked left right (l₁ ++ a :: l₂))
    (hnodup : (l₁ ++ a :: l₂).Nodup) :
    Linked (Function.update (bypassLeft left right a) a none)
      (Function.update (bypassRight left right a) a none) (l₁ ++ l₂) := by
  have hleft := h.left_eq
  have hright := h.right_eq
  have ha : a ∉ l₁ ++ l₂ := (List.nodup_middle.mp hnodup |> List.nodup_cons.mp).1
  intro m₁ b m₂ heq
  have hba : b ≠ a := by
    rintro rfl
    exact ha (by rw [heq]; simp)
  rw [Function.update_of_ne hba, Function.update_of_ne hba]
  rcases List.append_eq_append_iff.mp heq with ⟨c, rfl, hc⟩ | ⟨c, rfl, hc⟩
  · have hnode : l₁ ++ a :: l₂ = (l₁ ++ a :: c) ++ b :: m₂ := by rw [hc]; simp
    obtain ⟨hl, hr⟩ := h _ _ _ hnode
    have hne : left a ≠ some b := by
      rw [hleft]
      intro hmem
      rw [hc] at hnodup
      have hdis := (List.nodup_append.mp hnodup).2.2 b (List.mem_of_getLast? hmem) b (by simp)
      exact hdis rfl
    rw [bypassRight, storeAt_of_ne hne]
    refine ⟨?_, hr⟩
    cases c with
    | nil =>
      have hra : right a = some b := by rw [hright, hc]; rfl
      rw [bypassLeft, hra, storeAt_some, hleft]
      simp
    | cons d c =>
      have hra : right a ≠ some b := by
        rw [hright, hc]
        rintro hdb
        obtain rfl : d = b := by simpa using hdb
        rw [hc] at hnodup
        have hn := (List.nodup_append.mp hnodup).2.1
        simp at hn
      rw [bypassLeft, storeAt_of_ne hra, hl]
      simp [List.getLast?_append]
  · cases c with
    | nil =>
      have hm : b :: m₂ = l₂ := by simpa using hc
      subst hm
      have hnode : m₁ ++ [] ++ a :: b :: m₂ = (m₁ ++ [a]) ++ b :: m₂ := by simp
      obtain ⟨hl, hr⟩ := h _ _ _ hnode
      have hra : right a = some b := by rw [hright]; rfl
      have hla : left a ≠ some b := by
        rw [hleft]
        intro hmem
        have hdis := (List.nodup_append.mp hnodup).2.2 b (List.mem_of_getLast? hmem) b (by simp)
        exact hdis rfl
      rw [bypassRight, storeAt_of_ne hla, bypassLeft, hra, storeAt_some, hleft]
      exact ⟨by simp, hr⟩
    | cons d c =>
      obtain ⟨rfl, rfl⟩ : b = d ∧ m₂ = c ++ l₂ := by simpa using hc
      have hnode : m₁ ++ b :: c ++ a :: l₂ = m₁ ++ b :: (c ++ a :: l₂) := by simp
      obtain ⟨hl, hr⟩ := h _ _ _ hnode
      have hra : right a ≠ some b := by
        rw [hright]
        intro hmem
        have hdis := (List.nodup_append.mp hnodup).2.2 b (by simp) b
          (List.mem_cons_of_mem _ (List.mem_of_head? hmem))
        exact hdis rfl
      rw [bypassLeft, storeAt_of_ne hra]
      refine ⟨hl, ?_⟩
      rcases List.eq_nil_or_concat' c with rfl | ⟨c', e, rfl⟩
      · have hla : left a = some b := by rw [hleft]; simp
        rw [bypassRight, hla, storeAt_some, hright]
        rfl
      · have hla : left a ≠ some b := by
          rw [hleft]
          rw [getLast?_middle]
          rintro ⟨⟩
          have hn := (List.nodup_append.mp (List.nodup_append.mp hnodup).1).2.1
          simp at hn
        rw [bypassRight, storeAt_of_ne hla, hr]
        cases c' <;> simp

end SiblingList

end Cheetah
