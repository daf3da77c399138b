import Mathlib.Data.List.Nodup

set_option autoImplicit false

/-!
# Obligations settled at most once

A ledger of obligations: an obligation `r` enters once, at a place `s`, is open there until it
is settled, and never comes back. This is what a table of waiters is for: each waiter gets at
most one value.

* `Step`: nothing happens, one obligation enters, or several open ones are settled;
* `Inv`: open and settled obligations are disjoint, each settled one is settled once, and every
  obligation that entered is open or settled;
* `Step.inv`: every step keeps `Inv`.
-/

/-- `place` says where an obligation entered, `live` where it is open. -/
structure Ledger (ς κ : Type*) where
  place : κ → Option ς
  live : ς → κ → Prop
  settled : List (ς × κ)

namespace Ledger

variable {ς κ : Type*}

/-- All that one step can do to a ledger. -/
inductive Step (l l' : Ledger ς κ) : Prop
  | stay (hplace : ∀ r, l'.place r = l.place r) (hlive : ∀ s r, l'.live s r ↔ l.live s r)
      (hsettled : l'.settled = l.settled)
  | enter (s : ς) (r : κ) (hnew : l.place r = none) (hin : l'.place r = some s)
      (hplace : ∀ q, q ≠ r → l'.place q = l.place q)
      (hlive : ∀ t q, l'.live t q ↔ (t = s ∧ q = r) ∨ l.live t q)
      (hsettled : l'.settled = l.settled)
  | settle (ks : List (ς × κ)) (hnodup : ks.Nodup) (hopen : ∀ k ∈ ks, l.live k.1 k.2)
      (hplace : ∀ r, l'.place r = l.place r)
      (hlive : ∀ s r, l'.live s r ↔ l.live s r ∧ (s, r) ∉ ks)
      (hsettled : l'.settled = l.settled ++ ks)

/-- An entry is in at most one place, and is settled at most once. -/
structure Inv (l : Ledger ς κ) : Prop where
  live_place : ∀ s r, l.live s r → l.place r = some s
  settled_place : ∀ s r, (s, r) ∈ l.settled → l.place r = some s
  once : (l.settled.map Prod.snd).Nodup
  exclusive : ∀ s r, l.live s r → (s, r) ∉ l.settled
  accounted : ∀ s r, l.place r = some s → l.live s r ∨ (s, r) ∈ l.settled

/-- An open obligation is not settled anywhere. -/
theorem Inv.notMem_settled {l : Ledger ς κ} (h : l.Inv) {s : ς} {r : κ} (hl : l.live s r) :
    r ∉ l.settled.map Prod.snd := by
  intro hm
  obtain ⟨⟨t, q⟩, hk, rfl⟩ := List.mem_map.mp hm
  have hst : t = s :=
    Option.some_inj.mp ((h.settled_place t q hk).symm.trans (h.live_place s q hl))
  exact h.exclusive s q hl (hst ▸ hk)

/-- The open obligations of a list of distinct keys are distinct. -/
theorem Inv.nodup_snd {l : Ledger ς κ} (h : l.Inv) {ks : List (ς × κ)} (hn : ks.Nodup)
    (hk : ∀ k ∈ ks, l.live k.1 k.2) : (ks.map Prod.snd).Nodup := by
  refine hn.map_on fun a ha b hb hab => ?_
  have hpa := h.live_place _ _ (hk a ha)
  have hpb := h.live_place _ _ (hk b hb)
  rw [hab] at hpa
  exact Prod.ext (Option.some_inj.mp (hpa.symm.trans hpb)) hab

/-- **Step rule.** Every step keeps the invariant. -/
theorem Step.inv {l l' : Ledger ς κ} (hs : Step l l') (h : l.Inv) : l'.Inv := by
  cases hs with
  | stay hplace hlive hsettled =>
      refine ⟨?_, ?_, hsettled ▸ h.once, ?_, ?_⟩
      · intro s r hl
        rw [hplace]
        exact h.live_place s r ((hlive s r).mp hl)
      · intro s r hm
        rw [hplace]
        exact h.settled_place s r (hsettled ▸ hm)
      · intro s r hl hm
        exact h.exclusive s r ((hlive s r).mp hl) (hsettled ▸ hm)
      · intro s r hp
        rw [hplace] at hp
        rw [hlive, hsettled]
        exact h.accounted s r hp
  | enter s r hnew hin hplace hlive hsettled =>
      have hne : ∀ {t q}, l.place q = some t → q ≠ r := by
        rintro t q hq rfl
        rw [hnew] at hq
        exact absurd hq (by simp)
      refine ⟨?_, ?_, hsettled ▸ h.once, ?_, ?_⟩
      · intro t q hl
        rcases (hlive t q).mp hl with ⟨rfl, rfl⟩ | hl
        · exact hin
        · have hp := h.live_place t q hl
          rw [hplace q (hne hp), hp]
      · intro t q hm
        have hp := h.settled_place t q (hsettled ▸ hm)
        rw [hplace q (hne hp), hp]
      · intro t q hl hm
        rw [hsettled] at hm
        rcases (hlive t q).mp hl with ⟨rfl, rfl⟩ | hl
        · exact hne (h.settled_place t q hm) rfl
        · exact h.exclusive t q hl hm
      · intro t q hp
        rw [hlive, hsettled]
        by_cases hq : q = r
        · subst hq
          obtain rfl : s = t := Option.some_inj.mp (hin.symm.trans hp)
          exact Or.inl (Or.inl ⟨rfl, rfl⟩)
        · rw [hplace q hq] at hp
          exact (h.accounted t q hp).imp_left Or.inr
  | settle ks hnodup hopen hplace hlive hsettled =>
      refine ⟨?_, ?_, ?_, ?_, ?_⟩
      · intro s r hl
        rw [hplace]
        exact h.live_place s r ((hlive s r).mp hl).1
      · intro s r hm
        rw [hplace]
        rcases List.mem_append.mp (hsettled ▸ hm) with hm | hm
        · exact h.settled_place s r hm
        · exact h.live_place s r (hopen _ hm)
      · rw [hsettled, List.map_append, List.nodup_append]
        refine ⟨h.once, h.nodup_snd hnodup hopen, ?_⟩
        rintro r hr q hq rfl
        obtain ⟨k, hk, rfl⟩ := List.mem_map.mp hq
        exact h.notMem_settled (hopen k hk) hr
      · intro s r hl hm
        obtain ⟨hl, hnot⟩ := (hlive s r).mp hl
        rcases List.mem_append.mp (hsettled ▸ hm) with hm | hm
        · exact h.exclusive s r hl hm
        · exact hnot hm
      · intro s r hp
        rw [hplace] at hp
        rw [hlive, hsettled, List.mem_append]
        by_cases hk : (s, r) ∈ ks
        · exact Or.inr (Or.inr hk)
        · exact (h.accounted s r hp).imp (fun hl => ⟨hl, hk⟩) Or.inl

end Ledger
