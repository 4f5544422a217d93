import Cockpit.Base1.Utf8Decoder

namespace Cockpit

open Lib.Uri (raw textLen front textLen_take textLen_append front_append textLen_le raw_append)
open Option List Nat

/-!
# Text that is decoded piece by piece

A call with `{ stream: true }` holds back the bytes of a sequence that may go on, and the next
call comes back to them.

* `decode_chunks` — so the text does not depend on where it is cut;
* `substitutes_iff` — a decoder that is not fatal substitutes what is not UTF-8, and never throws,
  exactly where everything that its loop takes for a sequence is one.
-/

namespace Utf8TextDecoder

/-! ### Two pieces -/

variable {tail : List UInt8} {p : UInt8}

section

variable (ys : List UInt8) (h : held (p :: tail) = false)

include ys h

theorem not_held_append : held (p :: tail ++ ys) = false := by
  simp only [held, cons_append, length_append, decide_eq_false_iff_not] at h ⊢
  omega

/-- Where all announced bytes are there, what follows does not matter. -/
theorem taken_append : taken (p :: tail ++ ys) = taken (p :: tail) := by
  simp only [held, decide_eq_false_iff_not, not_lt] at h
  have htake : (tail ++ ys).take (announced p.toNat - 1) = tail.take (announced p.toNat - 1) :=
    take_append_of_le_length (by omega)
  rw [Bool.eq_iff_iff, cons_append, taken_cons, taken_cons, htake, length_append]
  refine and_congr_right fun _ => and_congr_left fun _ => ?_
  omega

theorem textLen_append_zero (hzero : textLen (p :: tail) = 0) :
    textLen (p :: tail ++ ys) = 0 := by
  by_contra hne
  have hpos := pos_of_ne_zero hne
  have hlen : announced p.toNat = textLen (p :: tail ++ ys) := (taken_of_textLen hpos).2
  simp only [held, decide_eq_false_iff_not, not_lt] at h
  have htake := textLen_take _ hpos
  rw [take_append_of_le_length (by rw [length_cons]; omega)] at htake
  -- the sequence would be in the first piece
  have happ := textLen_append _ ((p :: tail).drop (textLen (p :: tail ++ ys)))
    (htake.symm ▸ hpos)
  rw [take_append_drop, hzero, htake] at happ
  omega

end

/-- **Two pieces are read like the whole**: what the first one holds back comes first. -/
theorem reads_append (fatal stream : Bool) (xs ys : List UInt8) :
    reads fatal stream (xs ++ ys) =
      (reads fatal true xs).bind fun first =>
        (reads fatal stream (first.2 ++ ys)).map fun r => (first.1 ++ r.1, r.2) := by
  induction hn : xs.length using Nat.strong_induction_on generalizing xs with
  | _ n ih =>
    cases xs with
    | nil => simp [reads]
    | cons p tail =>
      by_cases hheld : held (p :: tail)
      · -- everything is held back
        have hreads : reads fatal true (p :: tail) = some ([], p :: tail) := by
          rw [reads, if_pos ⟨rfl, hheld⟩]
        rw [hreads]
        simp
      have hfalse : held (p :: tail) = false := by simpa using hheld
      have hlong := not_held_append ys hfalse
      rw [cons_append] at hlong ⊢
      rw [reads_cons (by simp [hlong]), reads_cons (by simp [hfalse])]
      by_cases hpos : 0 < textLen (p :: tail)
      · -- a sequence of the first piece
        have hlen : textLen (p :: (tail ++ ys)) = textLen (p :: tail) :=
          textLen_append _ ys hpos
        have hfront : front (p :: (tail ++ ys)) = front (p :: tail) :=
          front_append _ ys hpos
        have hdrop : (p :: (tail ++ ys)).drop (textLen (p :: tail)) =
            (p :: tail).drop (textLen (p :: tail)) ++ ys :=
          drop_append_of_le_length (textLen_le _)
        have hshort : ((p :: tail).drop (textLen (p :: tail))).length < n := by
          rw [length_drop, ← hn, length_cons]
          omega
        rw [hlen, if_pos hpos, if_pos hpos, hfront, hdrop, ih _ hshort _ rfl]
        cases reads fatal true ((p :: tail).drop (textLen (p :: tail))) with
        | none => rfl
        | some r => simp [Option.map_map, Function.comp_def]
      have hzero : textLen (p :: tail) = 0 := by omega
      have hnone : textLen (p :: (tail ++ ys)) = 0 := textLen_append_zero ys hfalse hzero
      have htaken : taken (p :: (tail ++ ys)) = taken (p :: tail) := taken_append ys hfalse
      rw [hnone, hzero, if_neg (lt_irrefl 0), if_neg (lt_irrefl 0), htaken]
      by_cases hthrow : taken (p :: tail) ∨ fatal
      · rw [if_pos hthrow, if_pos hthrow]
        rfl
      rw [if_neg hthrow, if_neg hthrow, ih tail.length (by rw [← hn]; simp) _ rfl]
      cases reads fatal true tail with
      | none => rfl
      | some r => simp [Option.map_map, Function.comp_def]

variable {r : List Nat × List UInt8} {fatal stream : Bool} {xs buf : List UInt8}

/-- Without `{ stream: true }` nothing is held back. -/
theorem reads_final (h : reads fatal false xs = some r) : r.2 = [] := by
  induction hn : xs.length using Nat.strong_induction_on generalizing xs r with
  | _ n ih =>
    cases xs with
    | nil =>
      rw [reads] at h
      cases h
      rfl
    | cons p tail =>
      rw [reads, if_neg (by simp)] at h
      split at h
      · rename_i hpos
        obtain ⟨r', hr', rfl⟩ := map_eq_some_iff.mp h
        have hshort : ((p :: tail).drop (textLen (p :: tail))).length < n := by
          rw [length_drop, ← hn, length_cons]
          omega
        have hnil := ih _ hshort hr' rfl
        exact hnil
      split at h
      · cases h
      · obtain ⟨r', hr', rfl⟩ := map_eq_some_iff.mp h
        have hnil := ih tail.length (by rw [← hn]; simp) hr' rfl
        exact hnil

/-! ### Calls -/

theorem decode_reads (h : reads fatal stream (buf ++ xs) = some r) :
    decode ⟨fatal, raw buf⟩ (raw xs) stream = (some r.1, ⟨fatal, raw r.2⟩) := by
  have hscan := scan_reads fatal stream (buf ++ xs) [] [] [] fun ys => by simp
  rw [h] at hscan
  simp only [decode, ← raw_append]
  rw [hscan]
  rfl

theorem decode_throws (h : reads fatal stream (buf ++ xs) = none) :
    (decode ⟨fatal, raw buf⟩ (raw xs) stream).1 = none := by
  have hscan := scan_reads fatal stream (buf ++ xs) [] [] [] fun ys => by simp
  rw [h] at hscan
  simp only [decode, ← raw_append]
  exact hscan

/-- Calls of `decode`, each with whether it has `{ stream: true }`. -/
def decodeAll (d : Utf8TextDecoder) :
    List (List UInt8 × Bool) → List (Option (List Nat)) × Utf8TextDecoder
  | [] => ([], d)
  | (data, stream) :: calls =>
    let (str, d) := d.decode (raw data) stream
    let (strs, d) := decodeAll d calls
    (str :: strs, d)

/-- The chunks of a text, and a call without data in the end. -/
theorem decodeAll_chunks {chunks : List (List UInt8)} (h : reads fatal false (buf ++ chunks.flatten) = some r) :
    ∃ pieces : List (List Nat), decodeAll ⟨fatal, raw buf⟩ (chunks.map (·, true) ++ [([], false)]) =
        (pieces.map some, ⟨fatal, []⟩) ∧ pieces.flatten = r.1 := by
  induction chunks generalizing buf r with
  | nil =>
    have hr := reads_final h
    rw [flatten_nil] at h
    refine ⟨[r.1], ?_, by simp⟩
    simp only [map_nil, nil_append, decodeAll, decode_reads h, hr]
    rfl
  | cons chunk chunks ih =>
    rw [flatten_cons, ← append_assoc, reads_append, bind_eq_some_iff] at h
    obtain ⟨first, hfirst, h⟩ := h
    obtain ⟨r', hr', rfl⟩ := map_eq_some_iff.mp h
    obtain ⟨pieces, hrun, hpieces⟩ := ih hr'
    refine ⟨first.1 :: pieces, ?_, by simp [hpieces]⟩
    simp only [map_cons, cons_append, decodeAll, decode_reads hfirst, hrun]

/-- **The text does not depend on where it is cut**, and nothing is left in the buffer. -/
theorem decode_chunks (fatal : Bool) (chunks : List (List UInt8)) (str : List Nat)
    (h : (decode ⟨fatal, []⟩ (raw chunks.flatten) false).1 = some str) :
    ∃ pieces : List (List Nat), decodeAll ⟨fatal, []⟩ (chunks.map (·, true) ++ [([], false)]) =
        (pieces.map some, ⟨fatal, []⟩) ∧ pieces.flatten = str := by
  cases hreads : reads fatal false ([] ++ chunks.flatten) with
  | none =>
    rw [show ([] : List Nat) = raw [] from rfl, decode_throws hreads] at h
    cases h
  | some r =>
    obtain ⟨pieces, hrun, hpieces⟩ := decodeAll_chunks hreads
    rw [show ([] : List Nat) = raw [] from rfl, decode_reads hreads] at h
    cases h
    exact ⟨pieces, hrun, hpieces⟩

/-- "€" in two chunks. -/
theorem decode_chunks_euro :
    ∃ pieces : List (List Nat),
      decodeAll ⟨false, []⟩ ([[0xE2], [0x82, 0xAC]].map (·, true) ++ [([], false)]) =
        (pieces.map some, ⟨false, []⟩) ∧ pieces.flatten = [0x20AC] := by
  have hlen : textLen [0xE2, 0x82, 0xAC] = 3 := by decide
  have hreads : reads false false ([] ++ [0xE2, 0x82, 0xAC]) = some ([0x20AC], []) := by
    rw [nil_append, reads_cons (by simp), if_pos (by rw [hlen]; decide), hlen]
    simp only [drop_succ_cons, drop_zero, reads]
    decide
  have hdecode : decode ⟨false, []⟩ (raw [0xE2, 0x82, 0xAC]) false = (some [0x20AC], ⟨false, []⟩) :=
    decode_reads hreads
  exact decode_chunks false [[0xE2], [0x82, 0xAC]] [0x20AC] (congrArg Prod.fst hdecode)

/-! ### What is substituted -/

/-- The text with a replacement character for every byte that is in no well-formed sequence. -/
def lossy (xs : List UInt8) : List Nat :=
  match xs with
  | [] => []
  | p :: tail =>
    if 0 < textLen (p :: tail) then
      front (p :: tail) ++ lossy ((p :: tail).drop (textLen (p :: tail)))
    else 0xFFFD :: lossy tail
  termination_by xs.length
  decreasing_by
    · simp only [length_drop, length_cons]
      omega
    · simp

theorem lossy_front (h : 0 < textLen (p :: tail)) :
    lossy (p :: tail) = front (p :: tail) ++ lossy ((p :: tail).drop (textLen (p :: tail))) := by
  rw [lossy, if_pos h]

theorem lossy_replaced (h : textLen (p :: tail) = 0) :
    lossy (p :: tail) = 0xFFFD :: lossy tail := by
  rw [lossy, if_neg (by omega)]

/-- **What a call returns**: its bytes with substitutes, up to an incomplete sequence. -/
theorem reads_lossy (h : reads false stream xs = some r) :
    ∃ done, xs = done ++ r.2 ∧ r.1 = lossy done ∧ (r.2 = [] ∨ stream ∧ held r.2) := by
  induction hn : xs.length using Nat.strong_induction_on generalizing xs r with
  | _ n ih =>
    cases xs with
    | nil =>
      rw [reads] at h
      cases h
      exact ⟨[], rfl, by rw [lossy], .inl rfl⟩
    | cons p tail =>
      by_cases hheld : stream ∧ held (p :: tail)
      · rw [reads, if_pos hheld] at h
        cases h
        exact ⟨[], rfl, by rw [lossy], .inr hheld⟩
      rw [reads_cons hheld] at h
      by_cases hpos : 0 < textLen (p :: tail)
      · rw [if_pos hpos] at h
        obtain ⟨r', hr', rfl⟩ := map_eq_some_iff.mp h
        have hshort : ((p :: tail).drop (textLen (p :: tail))).length < n := by
          rw [length_drop, ← hn, length_cons]
          omega
        obtain ⟨done, hdone, hout, hheld'⟩ := ih _ hshort hr' rfl
        have hsplit : p :: tail = (p :: tail).take (textLen (p :: tail)) ++ done ++ r'.2 := by
          rw [append_assoc, ← hdone, take_append_drop]
        refine ⟨_, hsplit, ?_, hheld'⟩
        -- the sequence is at the front of what is done, too
        obtain ⟨k, hk⟩ : ∃ k, textLen (p :: tail) = k + 1 :=
          ⟨_, (succ_pred_eq_of_pos hpos).symm⟩
        have htake := textLen_take _ hpos
        have hlen : textLen ((p :: tail).take (textLen (p :: tail)) ++ done) =
            textLen (p :: tail) := by
          rw [textLen_append _ _ (htake.symm ▸ hpos), htake]
        have hfront : front ((p :: tail).take (textLen (p :: tail)) ++ done) =
            front (p :: tail) := by
          rw [front_append _ _ (htake.symm ▸ hpos)]
          have hwhole := front_append _ ((p :: tail).drop (textLen (p :: tail)))
            (htake.symm ▸ hpos)
          rw [take_append_drop] at hwhole
          exact hwhole.symm
        have hdrop : ((p :: tail).take (textLen (p :: tail)) ++ done).drop
            (textLen (p :: tail)) = done :=
          List.drop_left' (by rw [List.length_take]
                              exact min_eq_left (textLen_le _))
        rw [hk, List.take_succ_cons, List.cons_append] at hlen hfront hdrop ⊢
        rw [lossy_front (by omega), hfront, hlen, hdrop, hout]
      rw [if_neg hpos] at h
      split at h
      · cases h
      obtain ⟨r', hr', rfl⟩ := map_eq_some_iff.mp h
      obtain ⟨done, hdone, hout, hheld'⟩ := ih tail.length (by rw [← hn]; simp) hr' rfl
      refine ⟨p :: done, by rw [cons_append, ← hdone], ?_, hheld'⟩
      rw [lossy_replaced, hout]
      -- no sequence starts there in what is done
      by_contra hne
      have happ := textLen_append (p :: done) r'.2 (pos_of_ne_zero hne)
      rw [cons_append, ← hdone] at happ
      omega

/-! ### What is not substituted -/

/-- All that the loop takes for sequences is well-formed, as far as it comes: with
    `{ stream: true }` it waits where the rest of a sequence is missing. -/
def Sound (stream : Bool) (xs : List UInt8) : Prop :=
  ∀ k, taken (xs.drop k) →
    0 < textLen (xs.drop k) ∨ stream ∧ ∃ j < k, held (xs.drop j)

/-- A call throws exactly at what its loop takes for a sequence and is none. -/
theorem reads_isSome_iff (stream : Bool) (xs : List UInt8) :
    (reads false stream xs).isSome ↔ Sound stream xs := by
  induction hn : xs.length using Nat.strong_induction_on generalizing xs with
  | _ n ih =>
    cases xs with
    | nil =>
      rw [reads]
      exact ⟨fun _ k hk => by simp [taken] at hk, fun _ => rfl⟩
    | cons p tail =>
      by_cases hheld : stream ∧ held (p :: tail)
      · rw [reads, if_pos hheld]
        refine ⟨fun _ k hk => .inr ⟨hheld.1, 0, ?_, hheld.2⟩, fun _ => rfl⟩
        -- what is held back is not taken
        by_contra hzero
        obtain rfl : k = 0 := by omega
        have hall := hheld.2
        rw [drop_zero, taken_cons] at hk
        simp only [held, decide_eq_true_eq] at hall
        omega
      rw [reads_cons hheld]
      by_cases hpos : 0 < textLen (p :: tail)
      · rw [if_pos hpos, isSome_map]
        have hshort : ((p :: tail).drop (textLen (p :: tail))).length < n := by
          rw [length_drop, ← hn, length_cons]
          omega
        rw [ih _ hshort _ rfl]
        simp only [Sound, drop_drop]
        constructor
        · intro h k hk
          by_cases hzero : k = 0
          · rw [hzero]
            exact .inl hpos
          by_cases hlt : k < textLen (p :: tail)
          · -- nothing is taken inside a sequence
            obtain ⟨b, r, hdrop, hb, -⟩ := announced_inside (pos_of_ne_zero hzero) hlt
            rw [hdrop, taken_cons] at hk
            exact absurd hb hk.1
          have hback : textLen (p :: tail) + (k - textLen (p :: tail)) = k := by omega
          rcases h (k - textLen (p :: tail)) (by rwa [hback]) with hlen | ⟨hs, j, hj, hheld'⟩
          · rw [hback] at hlen
            exact .inl hlen
          · exact .inr ⟨hs, _, by omega, hheld'⟩
        intro h k hk
        rcases h _ hk with hlen | ⟨hs, j, hj, hheld'⟩
        · exact .inl hlen
        refine .inr ⟨hs, ?_⟩
        by_cases hzero : j = 0
        · subst hzero
          exact absurd ⟨hs, hheld'⟩ hheld
        by_cases hlt : j < textLen (p :: tail)
        · obtain ⟨b, r, hdrop, hb, -⟩ := announced_inside (pos_of_ne_zero hzero) hlt
          rw [hdrop] at hheld'
          simp [held, hb] at hheld'
        · refine ⟨j - textLen (p :: tail), by omega, ?_⟩
          rwa [show textLen (p :: tail) + (j - textLen (p :: tail)) = j by omega]
      rw [if_neg hpos]
      by_cases htaken : taken (p :: tail)
      · rw [if_pos (.inl htaken)]
        refine ⟨by simp, fun h => ?_⟩
        rcases h 0 htaken with hlen | ⟨-, j, hj, -⟩
        · exact absurd hlen hpos
        · omega
      rw [if_neg (by simp [htaken]), isSome_map, ih tail.length (by rw [← hn]; simp) _ rfl]
      constructor
      · intro h k hk
        cases k with
        | zero => exact absurd hk htaken
        | succ k =>
          rcases h k hk with hlen | ⟨hs, j, hj, hheld'⟩
          · exact .inl hlen
          · exact .inr ⟨hs, j + 1, by omega, hheld'⟩
      intro h k hk
      rcases h (k + 1) hk with hlen | ⟨hs, j, hj, hheld'⟩
      · exact .inl hlen
      · cases j with
        | zero => exact absurd ⟨hs, hheld'⟩ hheld
        | succ j => exact .inr ⟨hs, j, by omega, hheld'⟩

/-! ### Runs of a decoder that is not fatal -/

/-- **No call throws, and what is no UTF-8 is substituted**: with each call, the pieces since the
    last one without `{ stream: true }` are the text of the bytes since then, up to an incomplete
    sequence that is held back.  `heard` are the bytes so far and `said` are the pieces. -/
def Substitutes (said : List Nat) (heard : List UInt8) (d : Utf8TextDecoder) :
    List (List UInt8 × Bool) → Prop
  | [] => True
  | (data, stream) :: calls =>
    ∃ piece done rest, d.decode (raw data) stream = (some piece, ⟨false, raw rest⟩) ∧
      heard ++ data = done ++ rest ∧ said ++ piece = lossy done ∧
      (rest = [] ∨ stream ∧ held rest) ∧
      Substitutes (if stream then said ++ piece else []) (if stream then heard ++ data else [])
        ⟨false, raw rest⟩ calls

/-- The bytes of a text as they are known with each call, and whether the text may go on. -/
def texts (heard : List UInt8) : List (List UInt8 × Bool) → List (List UInt8 × Bool)
  | [] => []
  | (data, stream) :: calls =>
    (heard ++ data, stream) :: texts (if stream then heard ++ data else []) calls

theorem substitutes_texts (calls : List (List UInt8 × Bool)) {said : List Nat}
    {heard : List UInt8} (h : reads false true heard = some (said, buf)) :
    Substitutes said heard ⟨false, raw buf⟩ calls ↔
      ∀ text ∈ texts heard calls, Sound text.2 text.1 := by
  induction calls generalizing said heard buf with
  | nil => exact ⟨fun _ => nofun, fun _ => trivial⟩
  | cons call calls ih =>
    obtain ⟨data, stream⟩ := call
    have hwhole := reads_append false stream heard data
    rw [h, bind_some] at hwhole
    simp only at hwhole
    simp only [Substitutes, texts, forall_mem_cons]
    rw [← reads_isSome_iff, hwhole, isSome_map]
    cases hcall : reads false stream (buf ++ data) with
    | none =>
      refine ⟨fun hsub => ?_, fun hsome => by simp at hsome⟩
      obtain ⟨piece, done, rest, hdecode, -⟩ := hsub
      have hnone := decode_throws hcall
      rw [hdecode] at hnone
      cases hnone
    | some r =>
      rw [hcall] at hwhole
      obtain ⟨done, hdone, hout, hheld⟩ := reads_lossy hwhole
      have hnext : reads false true (if stream then heard ++ data else []) =
          some (if stream then said ++ r.1 else [], r.2) := by
        cases stream with
        | true => exact hwhole
        | false =>
          have hnil := reads_final hcall
          rw [if_neg (by simp), if_neg (by simp), hnil, reads]
      rw [← ih hnext]
      constructor
      · rintro ⟨piece, done', rest, hdecode, -, -, -, hrest⟩
        rw [decode_reads hcall] at hdecode
        simp only [Prod.mk.injEq, some.injEq, mk.injEq, true_and] at hdecode
        obtain ⟨rfl, hraw⟩ := hdecode
        rw [← hraw] at hrest
        exact ⟨rfl, hrest⟩
      · rintro ⟨-, hrest⟩
        exact ⟨r.1, done, r.2, decode_reads hcall, hdone, hout, hheld, hrest⟩

/-- **When a decoder that is not fatal never throws**: exactly when in every text, as far as it is
    known with each call, all bytes that the loop takes for a sequence are one. -/
theorem substitutes_iff (calls : List (List UInt8 × Bool)) :
    Substitutes [] [] ⟨false, []⟩ calls ↔ ∀ text ∈ texts [] calls, Sound text.2 text.1 :=
  substitutes_texts calls (by rw [reads])

/-- Two bytes that would be an overlong NUL are taken for a sequence. -/
theorem overlong_not_substituted : ¬ Substitutes [] [] ⟨false, []⟩ [([0xC0, 0x80], false)] := by
  have hempty : reads false true [] = some ([], []) := by rw [reads]
  intro h
  have hsound := (substitutes_texts [([0xC0, 0x80], false)] hempty).mp h ([0xC0, 0x80], false)
    (by simp [texts])
  rcases hsound 0 (by decide) with hlen | ⟨-, j, hj, -⟩
  · cases hlen
  · omega

end Utf8TextDecoder

end Cockpit
