import Mathlib

namespace Cockpit.Lib

open List

/-!
# Self-synchronising codes and repair of damaged streams

A *self-synchronising code* over an alphabet `α` tells, for the front of a stream, how
many symbols its first complete code word has (`0` when no complete word starts there).
The laws say that this answer only looks at the word itself, and that the inside of a
word is never taken for the start of another one.

* `repair` — the stream with every damaged symbol replaced;
* `tokens_append` — a stream may be cut wherever its front part does not end in a damaged
  symbol: both halves then read exactly as they do in the whole.  This is the fact that
  makes a chunk-wise repair agree with the repair of the whole stream (`repair_append`).
-/

/-- A self-synchronising code: `len xs` is the length of the complete code word at the
    front of `xs`, and `0` when there is none. -/
structure SelfSync (α : Type) where
  len : List α → Nat
  len_le : ∀ xs, len xs ≤ xs.length
  len_append : ∀ xs ys, 0 < len xs → len (xs ++ ys) = len xs
  len_take : ∀ xs, 0 < len xs → len (xs.take (len xs)) = len xs
  /-- If a word starts with all of `xs` but does not end in it, no word starts inside `xs`. -/
  len_inside : ∀ xs ys, len xs = 0 → 0 < len (xs ++ ys) → ∀ k, 0 < k → len (xs.drop k) = 0

/-- What the maximal-munch reading finds at a position: a complete word, or one symbol
    that starts none. -/
inductive Token (α : Type) where
  | word (w : List α)
  | damaged (x : α)
  deriving DecidableEq, Repr

namespace Token

variable {α : Type}

/-- Whether the token is a damaged symbol. -/
def isDamaged : Token α → Bool
  | .word _ => false
  | .damaged _ => true

/-- The symbols of the repaired stream at this token. -/
def repaired (replacement : List α) : Token α → List α
  | .word w => w
  | .damaged _ => replacement

end Token

namespace SelfSync

variable {α : Type} (C : SelfSync α)

/-- The empty stream has no word at its front. -/
@[simp] theorem len_nil : C.len [] = 0 := Nat.le_zero.mp (C.len_le [])

/-- The maximal-munch reading of a stream. -/
def tokens : List α → List (Token α)
  | [] => []
  | x :: xs =>
    if C.len (x :: xs) = 0 then .damaged x :: tokens xs
    else .word ((x :: xs).take (C.len (x :: xs))) :: tokens ((x :: xs).drop (C.len (x :: xs)))
  termination_by xs => xs.length
  decreasing_by
    · simp
    · simp only [length_drop, length_cons]; omega

@[simp] theorem tokens_nil : C.tokens [] = [] := by rw [tokens]

variable {xs : List α}

/-- A symbol that starts no word is read alone. -/
theorem tokens_damaged {x : α} (h : C.len (x :: xs) = 0) :
    C.tokens (x :: xs) = .damaged x :: C.tokens xs := by
  rw [tokens, if_pos h]

/-- A complete word is read at once. -/
theorem tokens_word (h : 0 < C.len xs) :
    C.tokens xs = .word (xs.take (C.len xs)) :: C.tokens (xs.drop (C.len xs)) := by
  cases xs with
  | nil => rw [C.len_nil] at h; exact absurd h (Nat.lt_irrefl 0)
  | cons x xs => rw [tokens, if_neg (by omega)]

variable (replacement : List α)

/-- The repaired stream: words as they are, `replacement` for every damaged symbol. -/
def repair (xs : List α) : List α :=
  (C.tokens xs).flatMap (Token.repaired replacement)

/-- A stream *ends damaged* when its last token is a damaged symbol. -/
def endsDamaged (xs : List α) : Bool :=
  ((C.tokens xs).getLast?.map Token.isDamaged).getD false

/-- A stream is *well-formed* when no symbol of it is damaged. -/
def WellFormed (xs : List α) : Prop := ∀ t ∈ C.tokens xs, t.isDamaged = false

/-! ### Cutting a stream -/

/-- Inside a word that `xs` starts but does not complete, every symbol is damaged when
    `xs` is read alone. -/
theorem isDamaged_of_len_inside (xs : List α) (h : ∀ k, C.len (xs.drop k) = 0) :
    ∀ t ∈ C.tokens xs, t.isDamaged := by
  induction xs with
  | nil => simp
  | cons x xs ih =>
    rw [C.tokens_damaged (h 0)]
    intro t ht
    rcases mem_cons.mp ht with rfl | ht
    · rfl
    · exact ih (fun k => h (k + 1)) t ht

/-- A non-empty stream all of whose tokens are damaged ends damaged. -/
theorem endsDamaged_of_forall (hne : xs ≠ [])
    (h : ∀ t ∈ C.tokens xs, t.isDamaged) : C.endsDamaged xs := by
  have hne' : C.tokens xs ≠ [] := by
    cases xs with
    | nil => exact absurd rfl hne
    | cons x xs => rw [tokens]; split <;> simp
  unfold endsDamaged
  rw [getLast?_eq_some_getLast hne', Option.map_some, Option.getD_some]
  exact h _ (getLast_mem hne')

variable {ys : List α}

/-- Reading past a first token does not change how the stream ends, unless it ends there. -/
theorem endsDamaged_cons {t : Token α} (h : C.tokens xs = t :: C.tokens ys)
    (hx : C.endsDamaged xs = false) : C.endsDamaged ys = false := by
  unfold endsDamaged at hx ⊢
  cases hys : C.tokens ys with
  | nil => rfl
  | cons u us =>
    rw [h, hys, getLast?_cons_cons] at hx
    exact hx

/-- **Cutting lemma.** A stream that does not end damaged reads the same whatever follows. -/
theorem tokens_append (xs ys : List α) (h : C.endsDamaged xs = false) :
    C.tokens (xs ++ ys) = C.tokens xs ++ C.tokens ys := by
  induction xs using tokens.induct C with
  | case1 => simp
  | case2 x xs h0 ih =>
    -- a damaged first symbol stays damaged: otherwise the whole front part would be the
    -- beginning of one word, and so end damaged
    have hlong : C.len (x :: (xs ++ ys)) = 0 := by
      by_contra hpos
      have hin := C.len_inside (x :: xs) ys h0 (Nat.pos_of_ne_zero hpos)
      have hall := C.isDamaged_of_len_inside (x :: xs) (fun k => by
        rcases Nat.eq_zero_or_pos k with rfl | hk
        · exact h0
        · exact hin k hk)
      rw [C.endsDamaged_of_forall (cons_ne_nil x xs) hall] at h
      exact Bool.noConfusion h
    have hrec := ih (C.endsDamaged_cons (C.tokens_damaged h0) h)
    rw [C.tokens_damaged h0, cons_append, C.tokens_damaged hlong, hrec, cons_append]
  | case3 x xs h0 ih =>
    have hpos : 0 < C.len (x :: xs) := Nat.pos_of_ne_zero h0
    have happ := C.len_append (x :: xs) ys hpos
    have hle := C.len_le (x :: xs)
    have hpos' : 0 < C.len (x :: xs ++ ys) := by omega
    have hrec := ih (C.endsDamaged_cons (C.tokens_word hpos) h)
    rw [C.tokens_word hpos, C.tokens_word hpos', happ,
      take_append_of_le_length hle, drop_append_of_le_length hle, hrec,
      cons_append]

/-- **Chunk-wise repair.** A stream may be repaired piecewise at every cut that does not
    follow a damaged symbol. -/
theorem repair_append (xs ys : List α) (h : C.endsDamaged xs = false) :
    C.repair replacement (xs ++ ys) = C.repair replacement xs ++ C.repair replacement ys := by
  unfold repair
  rw [C.tokens_append xs ys h, flatMap_append]

/-- A stream with an undamaged ending stays so when such a stream is appended. -/
theorem endsDamaged_append (xs ys : List α) (hx : C.endsDamaged xs = false)
    (hy : C.endsDamaged ys = false) : C.endsDamaged (xs ++ ys) = false := by
  have htok := C.tokens_append xs ys hx
  unfold endsDamaged at hx hy ⊢
  rw [htok, getLast?_append]
  cases hl : (C.tokens ys).getLast? with
  | none => simpa using hx
  | some t => simpa [hl] using hy

/-! ### Well-formed streams -/

/-- Well-formed streams do not end damaged. -/
theorem endsDamaged_of_wellFormed (h : C.WellFormed xs) :
    C.endsDamaged xs = false := by
  unfold endsDamaged
  cases hl : (C.tokens xs).getLast? with
  | none => rfl
  | some t => exact h t (mem_of_getLast? hl)

/-- Well-formedness is closed under concatenation. -/
theorem WellFormed.append (hx : C.WellFormed xs) (hy : C.WellFormed ys) :
    C.WellFormed (xs ++ ys) := by
  intro t ht
  rw [C.tokens_append xs ys (C.endsDamaged_of_wellFormed hx)] at ht
  rcases mem_append.mp ht with ht | ht
  · exact hx t ht
  · exact hy t ht

/-- The empty stream is well-formed. -/
theorem wellFormed_nil : C.WellFormed [] := by simp [WellFormed]

/-- One complete word is well-formed. -/
theorem wellFormed_take (h : 0 < C.len xs) : C.WellFormed (xs.take (C.len xs)) := by
  have hlen := C.len_take xs h
  intro t ht
  rw [C.tokens_word (by omega), hlen] at ht
  have hdrop : (xs.take (C.len xs)).drop (C.len xs) = [] := by
    rw [drop_eq_nil_iff, length_take]; omega
  rw [hdrop, tokens_nil, mem_singleton] at ht
  rw [ht]; rfl

/-- **Repair repairs.** With a well-formed replacement the repaired stream is well-formed. -/
theorem wellFormed_repair {replacement : List α} (hr : C.WellFormed replacement) (xs : List α) :
    C.WellFormed (C.repair replacement xs) := by
  induction xs using tokens.induct C with
  | case1 => simpa [repair] using C.wellFormed_nil
  | case2 x xs h0 ih =>
    rw [repair, C.tokens_damaged h0, flatMap_cons]
    exact WellFormed.append C hr ih
  | case3 x xs h0 ih =>
    have hpos : 0 < C.len (x :: xs) := Nat.pos_of_ne_zero h0
    rw [repair, C.tokens_word hpos, flatMap_cons]
    exact WellFormed.append C (C.wellFormed_take hpos) ih

/-- Nothing is repaired in a well-formed stream. -/
theorem repair_of_wellFormed (h : C.WellFormed xs) :
    C.repair replacement xs = xs := by
  induction xs using tokens.induct C with
  | case1 => simp [repair]
  | case2 x xs h0 ih =>
    have := h (.damaged x) (by rw [C.tokens_damaged h0]; exact mem_cons_self)
    exact Bool.noConfusion this
  | case3 x xs h0 ih =>
    have hpos : 0 < C.len (x :: xs) := Nat.pos_of_ne_zero h0
    have hrest : C.WellFormed ((x :: xs).drop (C.len (x :: xs))) := by
      intro t ht
      refine h t ?_
      rw [C.tokens_word hpos]
      exact mem_cons_of_mem _ ht
    have hrec := ih hrest
    unfold repair at hrec ⊢
    rw [C.tokens_word hpos, flatMap_cons, hrec]
    exact take_append_drop _ _

end SelfSync

end Cockpit.Lib
