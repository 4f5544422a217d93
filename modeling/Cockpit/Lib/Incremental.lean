import Mathlib

namespace Cockpit.Lib

open List

/-!
# Incremental reading of a framed stream

A `Framing` looks at the front of a buffer and asks for more symbols, finds an item, or
fails.  Its laws say that a decision, once made, does not change when more symbols arrive.
`drain` takes items off a buffer until none is left to take, and keeps the rest.

* `Framing.feed_flatten` — so the items do not depend on how a stream is cut into chunks;
* `Framing.drain_encoded` — a stream put together from encoded items drains to these items.
-/

/-- A slice of a buffer stays the same when more symbols arrive. -/
theorem take_drop_append {α : Type} {xs : List α} {i n : Nat} (h : i + n ≤ xs.length)
    (ys : List α) : ((xs ++ ys).drop i).take n = (xs.drop i).take n := by
  rw [drop_append_of_le_length (by omega), take_append_of_le_length (by rw [length_drop]; omega)]

/-- What the front of a buffer holds: too little, an item of `n` symbols, or an error. -/
inductive Scan (β : Type) where
  | more
  | item (n : Nat) (x : β)
  | fail

/-- A way to find items at the front of a buffer that is stable under more input. -/
structure Framing (α β : Type) where
  scan : List α → Scan β
  item_pos : ∀ {xs n x}, scan xs = .item n x → 0 < n
  item_le : ∀ {xs n x}, scan xs = .item n x → n ≤ xs.length
  item_append : ∀ {xs n x} (ys : List α), scan xs = .item n x → scan (xs ++ ys) = .item n x
  fail_append : ∀ {xs} (ys : List α), scan xs = .fail → scan (xs ++ ys) = .fail

/-- What reading has come to: the items found, the symbols left, and whether it failed. -/
@[ext] structure Drained (α β : Type) where
  items : List β
  rest : List α
  failed : Bool

namespace Framing

variable {α β : Type} (F : Framing α β)

/-- Take items off the buffer until more symbols are needed or the scan fails. -/
def drain (xs : List α) : Drained α β :=
  match _h : F.scan xs with
  | .more => ⟨[], xs, false⟩
  | .fail => ⟨[], xs, true⟩
  | .item n x => ⟨x :: (drain (xs.drop n)).items, (drain (xs.drop n)).rest,
      (drain (xs.drop n)).failed⟩
  termination_by xs.length
  decreasing_by
    all_goals
      have := F.item_pos _h
      have := F.item_le _h
      rw [length_drop]
      omega

variable {xs : List α}

theorem drain_of_more (h : F.scan xs = .more) : F.drain xs = ⟨[], xs, false⟩ := by
  rw [drain]
  split <;> simp_all

theorem drain_of_fail (h : F.scan xs = .fail) : F.drain xs = ⟨[], xs, true⟩ := by
  rw [drain]
  split <;> simp_all

variable {x : β}

theorem drain_of_item {n : Nat} (h : F.scan xs = .item n x) :
    F.drain xs = ⟨x :: (F.drain (xs.drop n)).items, (F.drain (xs.drop n)).rest,
      (F.drain (xs.drop n)).failed⟩ := by
  rw [drain]
  split <;> simp_all

/-- The rule of induction that follows the items of a buffer. -/
theorem drain_induction {motive : List α → Prop}
    (more : ∀ xs, F.scan xs = .more → motive xs)
    (fail : ∀ xs, F.scan xs = .fail → motive xs)
    (item : ∀ xs n x, F.scan xs = .item n x → motive (xs.drop n) → motive xs)
    (xs : List α) : motive xs := by
  induction hlen : xs.length using Nat.strongRecOn generalizing xs with
  | _ k ih =>
    cases hs : F.scan xs with
    | more => exact more xs hs
    | fail => exact fail xs hs
    | item n x =>
      refine item xs n x hs (ih _ ?_ _ rfl)
      have hpos := F.item_pos hs
      have hle := F.item_le hs
      rw [length_drop]
      omega

/-- Reading stops where more symbols are needed or the scan fails. -/
theorem scan_rest (xs : List α) :
    F.scan (F.drain xs).rest = if (F.drain xs).failed then .fail else .more := by
  induction xs using F.drain_induction with
  | more xs h => rw [F.drain_of_more h]; exact h
  | fail xs h => rw [F.drain_of_fail h]; exact h
  | item xs n x h ih => rw [F.drain_of_item h]; exact ih

/-- **Resuming.** To drain `xs ++ ys` is to drain `xs`, and then its rest followed by `ys`. -/
theorem drain_append (xs ys : List α) :
    F.drain (xs ++ ys) =
      if (F.drain xs).failed then
        ⟨(F.drain xs).items, (F.drain xs).rest ++ ys, true⟩
      else
        ⟨(F.drain xs).items ++ (F.drain ((F.drain xs).rest ++ ys)).items,
          (F.drain ((F.drain xs).rest ++ ys)).rest, (F.drain ((F.drain xs).rest ++ ys)).failed⟩ := by
  induction xs using F.drain_induction with
  | more xs h => rw [F.drain_of_more h]; rfl
  | fail xs h => rw [F.drain_of_fail h, F.drain_of_fail (F.fail_append ys h)]; rfl
  | item xs n x h ih =>
    have hdrop : (xs ++ ys).drop n = xs.drop n ++ ys := drop_append_of_le_length (F.item_le h)
    rw [F.drain_of_item h, F.drain_of_item (F.item_append ys h), hdrop, ih]
    cases hf : (F.drain (xs.drop n)).failed <;> simp

/-- One chunk arrives; after a failure nothing is read any more. -/
def feed (s : Drained α β) (chunk : List α) : Drained α β :=
  if s.failed then s
  else
    let d := F.drain (s.rest ++ chunk)
    ⟨s.items ++ d.items, d.rest, d.failed⟩

variable {s : Drained α β}

/-- Feeding after a failure changes nothing. -/
theorem feed_of_failed (h : s.failed) (chunk : List α) :
    F.feed s chunk = s := by
  rw [feed, if_pos h]

/-- Feeding before a failure drains. -/
theorem feed_of_reading (h : s.failed = false) (chunk : List α) :
    F.feed s chunk = ⟨s.items ++ (F.drain (s.rest ++ chunk)).items,
      (F.drain (s.rest ++ chunk)).rest, (F.drain (s.rest ++ chunk)).failed⟩ := by
  rw [feed, if_neg (by rw [h]; exact Bool.false_ne_true)]

/-- **Chunking.** The items found, and whether reading fails, only depend on the stream; so
    does the rest, unless reading failed before the last chunk. -/
theorem feed_flatten (chunks : List (List α)) :
    (chunks.foldl F.feed (F.drain [])).items = (F.drain chunks.flatten).items ∧
    (chunks.foldl F.feed (F.drain [])).failed = (F.drain chunks.flatten).failed ∧
    ((F.drain chunks.flatten).failed = false →
      (chunks.foldl F.feed (F.drain [])).rest = (F.drain chunks.flatten).rest) := by
  induction chunks using List.reverseRecOn with
  | nil => exact ⟨rfl, rfl, fun _ => rfl⟩
  | append_singleton chunks chunk ih =>
    obtain ⟨hitems, hfail, hrest⟩ := ih
    have happ := F.drain_append chunks.flatten chunk
    rw [foldl_append, foldl_cons, foldl_nil, flatten_append, flatten_singleton]
    cases hf : (F.drain chunks.flatten).failed with
    | true =>
      rw [hf, if_pos rfl] at happ
      rw [F.feed_of_failed (hfail.trans hf), happ]
      exact ⟨hitems, hfail.trans hf, nofun⟩
    | false =>
      rw [hf, if_neg Bool.false_ne_true] at happ
      rw [F.feed_of_reading (hfail.trans hf), happ, hitems, hrest hf]
      exact ⟨rfl, rfl, fun _ => rfl⟩

/-! ### Streams of encoded items -/

/-- A proper part of an item asks for more. -/
theorem scan_of_cut {ys : List α} (hcut : ys ≠ [])
    (h : F.scan (xs ++ ys) = .item (xs ++ ys).length x) : F.scan xs = .more := by
  have hlen : 0 < ys.length := length_pos_iff.mpr hcut
  cases hs : F.scan xs with
  | more => rfl
  | fail =>
    rw [F.fail_append ys hs] at h
    exact nomatch h
  | item n z =>
    have hle := F.item_le hs
    rw [F.item_append ys hs, Scan.item.injEq, List.length_append] at h
    omega

/-- Encoded items at the front of a stream are found. -/
theorem drain_encoded_append {ι : Type} {encode : ι → List α} {decode : ι → β} (items : List ι)
    (ys : List α)
    (h : ∀ i ∈ items, ∀ zs, F.scan (encode i ++ zs) = .item (encode i).length (decode i)) :
    F.drain ((items.map encode).flatten ++ ys) =
      ⟨items.map decode ++ (F.drain ys).items, (F.drain ys).rest, (F.drain ys).failed⟩ := by
  induction items with
  | nil => rfl
  | cons i items ih =>
    have hscan := h i mem_cons_self ((items.map encode).flatten ++ ys)
    rw [map_cons, flatten_cons, append_assoc, F.drain_of_item hscan,
      drop_left, ih (fun j hj => h j (mem_cons_of_mem _ hj))]
    rfl

end Framing

end Cockpit.Lib
