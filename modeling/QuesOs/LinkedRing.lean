import Mathlib.Data.List.Cycle
import Mathlib.Logic.Function.Basic

/-! Circular linked lists in a memory. A ring is a list of addresses, read up
to rotation, in which every address links to the next one and the last links
back to the first. Only the links of members matter, so a write elsewhere
leaves the ring alone, and unlinking or inserting a member is one changed
link. Nothing here knows what the nodes hold. -/
namespace QuesOs.LinkedRing

variable {α : Type*} {next next' : α → α} {x y : α} {l m : List α}

/-- Following `next` from any member of `l` visits `l` in order and returns. -/
def Threaded (next : α → α) (l : List α) : Prop := Cycle.Chain (fun a b => next a = b) (l : Cycle α)

theorem threaded_cons : Threaded next (x :: l) ↔ List.IsChain (fun a b => next a = b) (x :: (l ++ [x])) :=
  Cycle.chain_coe_cons _ x l

theorem threaded_singleton : Threaded next [x] ↔ next x = x :=
  Cycle.chain_singleton _ x

/-- A ring has no first member. -/
theorem threaded_swap : Threaded next (l ++ m) ↔ Threaded next (m ++ l) := by
  unfold Threaded
  rw [Cycle.coe_eq_coe.mpr List.isRotated_append]

/-- The link of each member but the last is the member written after it. -/
theorem threaded_link {before after : List α} (ring : Threaded next (before ++ x :: y :: after)) :
    next x = y := by
  rw [threaded_swap, List.cons_append, threaded_cons] at ring
  simp only [List.cons_append, List.isChain_cons_cons] at ring
  exact ring.1

/-- The last member links back to the first. -/
theorem threaded_close {before : List α} (ring : Threaded next (x :: (before ++ [y]))) : next y = x := by
  rw [← List.cons_append, threaded_swap] at ring
  exact @threaded_link _ _ _ _ [] _ ring

private theorem chain_agree (chain : List.IsChain (fun a b => next a = b) (l ++ [x]))
    (same : ∀ a ∈ l, next' a = next a) : List.IsChain (fun a b => next' a = b) (l ++ [x]) := by
  induction l with
  | nil => exact .singleton x
  | cons a l ih =>
    have tail := ih chain.tail (fun b member => same b (List.mem_cons_of_mem _ member))
    cases l with
    | nil =>
      simp only [List.cons_append, List.nil_append, List.isChain_cons_cons] at chain ⊢
      exact ⟨(same a (by simp)).trans chain.1, .singleton x⟩
    | cons b l =>
      simp only [List.cons_append, List.isChain_cons_cons] at chain tail ⊢
      exact ⟨(same a (by simp)).trans chain.1, tail⟩

/-- A memory that agrees on the members holds the same ring. -/
theorem threaded_agree (ring : Threaded next l) (same : ∀ a ∈ l, next' a = next a) : Threaded next' l := by
  cases l with
  | nil => exact ring
  | cons x l =>
    rw [threaded_cons, ← List.cons_append] at ring ⊢
    exact chain_agree ring same

/-- Skipping the member after `x` needs one write, at `x`. -/
theorem threaded_unlink (ring : Threaded next (x :: y :: l)) (skip : next' x = next y)
    (same : ∀ a ∈ l, next' a = next a) : Threaded next' (x :: l) := by
  rw [threaded_cons, List.cons_append, List.isChain_cons_cons] at ring
  obtain ⟨-, rest⟩ := ring
  rw [threaded_cons]
  cases l with
  | nil =>
    rw [List.nil_append, List.isChain_cons_cons] at rest ⊢
    exact ⟨skip.trans rest.1, .singleton x⟩
  | cons z l =>
    rw [List.cons_append, List.isChain_cons_cons] at rest ⊢
    rw [← List.cons_append] at rest ⊢
    exact ⟨skip.trans rest.1, chain_agree rest.2 same⟩

/-- Inserting `y` after `x` needs the two writes at `x` and `y`. -/
theorem threaded_insert (ring : Threaded next (x :: l)) (into : next' x = y) (out : next' y = next x)
    (same : ∀ a ∈ l, next' a = next a) : Threaded next' (x :: y :: l) := by
  rw [threaded_cons] at ring
  rw [threaded_cons, List.cons_append, List.isChain_cons_cons]
  refine ⟨into, ?_⟩
  cases l with
  | nil =>
    rw [List.nil_append, List.isChain_cons_cons] at ring ⊢
    exact ⟨out.trans ring.1, .singleton x⟩
  | cons z l =>
    rw [List.cons_append, List.isChain_cons_cons] at ring ⊢
    rw [← List.cons_append] at ring ⊢
    exact ⟨out.trans ring.1, chain_agree ring.2 same⟩

/-- Walking from any member, the ring can be read with that member first. -/
theorem threaded_from (ring : Threaded next l) (member : x ∈ l) :
    ∃ before after, l = before ++ x :: after ∧ Threaded next (x :: (after ++ before)) := by
  obtain ⟨before, after, rfl⟩ := List.append_of_mem member
  exact ⟨before, after, rfl, by rwa [threaded_swap] at ring⟩

/-- A ring never leaves its members. -/
theorem threaded_closed (ring : Threaded next l) (member : x ∈ l) : next x ∈ l := by
  obtain ⟨before, after, rfl, fromHere⟩ := threaded_from ring member
  rw [threaded_cons] at fromHere
  cases split : after ++ before with
  | nil =>
    rw [split, List.nil_append, List.isChain_cons_cons] at fromHere
    rw [fromHere.1]
    exact member
  | cons z rest =>
    rw [split, List.cons_append, List.isChain_cons_cons] at fromHere
    rw [fromHere.1]
    have : z ∈ after ++ before := by simp [split]
    simp only [List.mem_append, List.mem_cons] at this ⊢
    tauto

/-- A path is walked by following the links. -/
theorem chain_orbit (path : List.IsChain (fun a b => next a = b) (x :: l)) (member : y ∈ x :: l) :
    ∃ k, next^[k] x = y := by
  induction l generalizing x with
  | nil => exact ⟨0, (List.mem_singleton.mp member).symm⟩
  | cons z l ih =>
    rcases List.mem_cons.mp member with rfl | later
    · exact ⟨0, rfl⟩
    · rw [List.isChain_cons_cons] at path
      obtain ⟨k, arrives⟩ := ih path.2 later
      exact ⟨k + 1, by rw [Function.iterate_succ_apply, path.1, arrives]⟩

/-- The members are exactly what the links lead to from any one of them. -/
theorem mem_orbit (ring : Threaded next l) (first : x ∈ l) : y ∈ l ↔ ∃ k, next^[k] x = y := by
  constructor
  · intro member
    obtain ⟨before, after, rfl, around⟩ := threaded_from ring first
    rw [threaded_cons] at around
    refine chain_orbit around ?_
    simp only [List.mem_append, List.mem_cons] at member ⊢
    tauto
  · rintro ⟨k, rfl⟩
    induction k with
    | zero => exact first
    | succ k ih =>
      rw [Function.iterate_succ_apply']
      exact threaded_closed ring ih

/-- Two members of a ring never share a successor. -/
theorem threaded_injective (ring : Threaded next l) (nodup : l.Nodup) (first : x ∈ l) (second : y ∈ l)
    (same : next x = next y) : x = y := by
  obtain ⟨before, after, rfl, fromFirst⟩ := threaded_from ring first
  by_contra different
  have inRest : y ∈ after ++ before := by
    simp only [List.mem_append, List.mem_cons] at second ⊢
    tauto
  have restNodup : (x :: (after ++ before)).Nodup :=
    (List.perm_append_comm.trans (by simp)).nodup_iff.mp nodup
  obtain ⟨passed, left, split⟩ := List.append_of_mem inRest
  rw [split] at fromFirst restNodup
  -- What follows `y` is a member passed later than what follows `x`, or `x` itself.
  have afterX : next x ∈ passed ++ [y] := by
    cases passed with
    | nil => simp [@threaded_link _ _ _ _ [] _ fromFirst]
    | cons z passed => simp [@threaded_link _ _ _ _ [] _ fromFirst]
  have afterY : next y ∈ left ++ [x] := by
    cases left with
    | nil => simp [threaded_close fromFirst]
    | cons z left => simp [@threaded_link _ _ _ _ (x :: passed) _ fromFirst]
  rw [← same] at afterY
  simp only [List.nodup_cons, List.nodup_append, List.mem_append, List.mem_cons] at restNodup
  simp only [List.mem_append, List.mem_singleton] at afterX afterY
  grind

/-! ## Rings that can be walked both ways -/

/-- `next` walks `l` forwards and `prev` walks it backwards. -/
structure Doubly (next prev : α → α) (l : List α) : Prop where
  forward : Threaded next l
  backward : Threaded prev l.reverse
  nodup : l.Nodup

namespace Doubly

variable {prev prev' : α → α}

theorem swap (ring : Doubly next prev (l ++ m)) : Doubly next prev (m ++ l) := by
  refine ⟨threaded_swap.mp ring.forward, ?_, List.nodup_append_comm.mp ring.nodup⟩
  have := ring.backward
  rw [List.reverse_append, threaded_swap] at this
  rwa [List.reverse_append]

theorem agree (ring : Doubly next prev l) (forward : ∀ a ∈ l, next' a = next a)
    (backward : ∀ a ∈ l, prev' a = prev a) : Doubly next' prev' l where
  forward := threaded_agree ring.forward forward
  backward := threaded_agree ring.backward fun a member => backward a (List.mem_reverse.mp member)
  nodup := ring.nodup

theorem single (forward : next x = x) (backward : prev x = x) : Doubly next prev [x] :=
  ⟨threaded_singleton.mpr forward, threaded_singleton.mpr backward, List.nodup_singleton x⟩

/-- The last member is what the first one points back to. -/
theorem last (ring : Doubly next prev (x :: (l ++ [y]))) : prev x = y := by
  have := ring.backward
  rw [List.reverse_cons, List.reverse_append, List.reverse_singleton] at this
  rw [List.append_assoc] at this
  exact threaded_close this

theorem first (ring : Doubly next prev (x :: y :: l)) : prev y = x := by
  have turned : Doubly next prev (y :: (l ++ [x])) := @swap _ _ [x] (y :: l) _ ring
  exact turned.last

/-- A member alone in its ring is its own predecessor. -/
theorem alone (ring : Doubly next prev [x]) : prev x = x := threaded_singleton.mp ring.backward

/-- Taking `y` out changes the link before it and the link after it. -/
theorem unlink (ring : Doubly next prev (x :: y :: l)) (skip : next' x = next y) (back : prev' (next y) = x)
    (forward : ∀ a ∈ l, next' a = next a) (backward : ∀ a ∈ x :: l, a ≠ next y → prev' a = prev a) :
    Doubly next' prev' (x :: l) := by
  have nodup := ring.nodup
  refine ⟨threaded_unlink ring.forward skip forward, ?_, by
    simp only [List.nodup_cons, List.mem_cons, not_or] at nodup ⊢
    exact ⟨nodup.1.2, nodup.2.2⟩⟩
  have before : prev y = x := ring.first
  -- Read backwards from what follows `y`, the ring goes through `y` to `x`.
  obtain ⟨z, rest, split⟩ : ∃ z rest, l ++ [x] = z :: rest := by
    cases l with
    | nil => exact ⟨x, [], rfl⟩
    | cons z l => exact ⟨z, l ++ [x], rfl⟩
  have after : next y = z := by
    have turned : Threaded next (y :: z :: rest) := by
      rw [← split]
      exact threaded_swap.mp (show Threaded next ([x] ++ y :: l) from ring.forward)
    exact @threaded_link _ _ _ _ [] _ turned
  have turned : Threaded prev (z :: y :: rest.reverse) := by
    have := ring.backward
    rw [show x :: y :: l = [x] ++ (y :: l) from rfl, List.reverse_append, threaded_swap, ← List.reverse_append,
      List.cons_append, split] at this
    simp only [List.reverse_cons, List.append_assoc, List.singleton_append] at this
    rwa [threaded_swap, List.cons_append, List.cons_append, List.nil_append] at this
  have split' : (x :: l).Perm (z :: rest) := by
    rw [← split]
    exact @List.perm_append_comm _ [x] l
  have distinct : (z :: rest).Nodup := split'.nodup_iff.mp (by
    simp only [List.nodup_cons, List.mem_cons, not_or] at nodup ⊢
    exact ⟨nodup.1.2, nodup.2.2⟩)
  have done : Threaded prev' (z :: rest.reverse) := by
    refine threaded_unlink turned ?_ ?_
    · rw [← after, back, before]
    · intro a member
      have inside := List.mem_reverse.mp member
      refine backward a (split'.mem_iff.mpr (List.mem_cons_of_mem _ inside)) ?_
      rw [after]
      rintro rfl
      exact (List.nodup_cons.mp distinct).1 inside
  have whole : Threaded prev' (z :: rest).reverse := by
    rw [List.reverse_cons, threaded_swap]
    exact done
  rw [← split, List.reverse_append, threaded_swap] at whole
  simpa using whole

/-- Putting `y` in before `x`, at the end of the list that begins with `x`. -/
theorem insert (ring : Doubly next prev (x :: l)) (fresh : y ∉ x :: l) (into : next' (prev x) = y)
    (out : next' y = x) (back : prev' y = prev x) (close : prev' x = y)
    (forward : ∀ a ∈ x :: l, a ≠ prev x → next' a = next a) (backward : ∀ a ∈ l, prev' a = prev a) :
    Doubly next' prev' (x :: (l ++ [y])) := by
  have nodup : (x :: (l ++ [y])).Nodup := by
    rw [← List.cons_append]
    exact List.nodup_append_comm.mp (List.nodup_cons.mpr ⟨fresh, ring.nodup⟩)
  refine ⟨?_, ?_, nodup⟩
  · -- Forwards, `y` comes after the last member.
    obtain ⟨rest, z, split⟩ : ∃ rest z, x :: l = rest ++ [z] :=
      ⟨(x :: l).dropLast, (x :: l).getLast (by simp), (List.dropLast_append_getLast (by simp)).symm⟩
    have before : prev x = z := by
      cases rest with
      | nil =>
        obtain ⟨rfl, rfl⟩ := List.cons.inj split
        exact ring.alone
      | cons w rest =>
        obtain ⟨rfl, rfl⟩ := List.cons.inj split
        exact ring.last
    have first : next z = x := by
      have := ring.forward
      cases rest with
      | nil =>
        obtain ⟨rfl, rfl⟩ := List.cons.inj split
        exact threaded_singleton.mp this
      | cons w rest =>
        obtain ⟨rfl, rfl⟩ := List.cons.inj split
        exact threaded_close this
    have distinct : (z :: rest).Nodup := by
      rw [← List.singleton_append]
      exact List.nodup_append_comm.mp (split ▸ ring.nodup)
    have turned : Threaded next (z :: rest) :=
      threaded_swap.mp (split ▸ ring.forward)
    have done : Threaded next' (z :: y :: rest) := by
      refine threaded_insert turned (before ▸ into) (by rw [out, first]) ?_
      intro a member
      refine forward a (split ▸ List.mem_append_left _ member) ?_
      rw [before]
      rintro rfl
      exact (List.nodup_cons.mp distinct).1 member
    rw [← List.cons_append, split, List.append_assoc, threaded_swap]
    exact done
  · have turned : Threaded prev (x :: l.reverse) := by
      have := ring.backward
      rw [List.reverse_cons, threaded_swap] at this
      exact this
    have done : Threaded prev' (x :: y :: l.reverse) :=
      threaded_insert turned close back fun a member => backward a (List.mem_reverse.mp member)
    rw [List.reverse_cons, threaded_swap, List.reverse_append]
    exact done

/-- Going on and back again ends where it began. -/
theorem prev_next (ring : Doubly next prev l) (member : x ∈ l) : prev (next x) = x := by
  obtain ⟨before, after, rfl⟩ := List.append_of_mem member
  have turned := ring.swap
  rw [List.cons_append] at turned
  cases rest : after ++ before with
  | nil =>
    rw [rest] at turned
    rw [threaded_singleton.mp turned.forward, turned.alone]
  | cons y rest' =>
    rw [rest] at turned
    rw [@threaded_link _ _ _ _ [] _ turned.forward, turned.first]

/-- Every member is what another one links to. -/
theorem next_prev (ring : Doubly next prev l) (member : x ∈ l) : next (prev x) = x := by
  obtain ⟨before, after, rfl⟩ := List.append_of_mem member
  have turned := ring.swap
  rw [List.cons_append] at turned
  rcases List.eq_nil_or_concat (after ++ before) with none | ⟨middle, y, split⟩
  · rw [none] at turned
    rw [turned.alone, threaded_singleton.mp turned.forward]
  · rw [split, List.concat_eq_append] at turned
    rw [turned.last, threaded_close turned.forward]

/-- A ring whose links are undone by `prev` is walked backwards by it. -/
theorem of_inverse (ring : Threaded next l) (nodup : l.Nodup) (back : ∀ a ∈ l, prev (next a) = a) :
    Doubly next prev l := by
  refine ⟨ring, ?_, nodup⟩
  cases l with
  | nil => exact ring
  | cons x l =>
    rw [threaded_cons] at ring
    have reversed : List.IsChain (fun a b => prev b = a) (x :: (l ++ [x])) := by
      refine ring.imp_of_mem_imp ?_
      intro a b member _ link
      rw [← link]
      apply back
      simp only [List.mem_cons, List.mem_append] at member ⊢
      tauto
    have around : List.IsChain (fun a b => prev a = b) (x :: (l.reverse ++ [x])) := by
      have := List.isChain_reverse.mpr reversed
      simpa using this
    rw [← threaded_cons] at around
    rw [List.reverse_cons, threaded_swap]
    exact around

end Doubly

end QuesOs.LinkedRing
