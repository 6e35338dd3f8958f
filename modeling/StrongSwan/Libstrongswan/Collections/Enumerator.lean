import Mathlib

/-!
Contract: the token enumerator of `enumerator.c` (`enumerator_create_token`).

Each `enumerate` skips the separators and trim characters in front of the next
token. A token that opens with a quote runs to the matching quote; any other
token runs to the nearest separator and loses its trailing trim characters.
The call returns `FALSE` once a last token, the one with no separator after it,
is empty. The enumerator works on a copy of the string and hands out pointers
into it; here it hands out the tokens themselves.

Owns: one `enumerate`, the list of all tokens with the fuel that suffices for
them, and the tokens of a list of words joined by one separator.
-/

namespace StrongSwan.Libstrongswan.Collections

/-- The trailing characters of `token` that are in `trim`, removed. -/
def trimEnd (trim token : List Char) : List Char :=
  (token.reverse.dropWhile trim.contains).reverse

/-- The token a quote opens: what follows it up to the next copy of the quote, and the text
after that copy; `none` for a token that is not quoted or whose quote is not closed. -/
def quotedToken : List Char → Option (List Char × List Char)
  | quote :: rest =>
    if quote = '"' ∨ quote = '\'' then
      match rest.span (· ≠ quote) with
      | (token, _ :: after) => some (token, after)
      | (_, []) => none
    else none
  | [] => none

/-- One `enumerate` of the token enumerator: the next token and the text after it, or `none`
where it returns `FALSE`. -/
def enumerateToken (sep trim text : List Char) : Option (List Char × List Char) :=
  let text := text.dropWhile fun c => trim.contains c || sep.contains c
  match quotedToken text with
  | some found => some found
  | none =>
    match text.span (fun c => !sep.contains c) with
    | (token, _ :: after) => some (trimEnd trim token, after)
    | (token, []) => if trimEnd trim token = [] then none else some (trimEnd trim token, [])

/-- The tokens of `text`, for at most `fuel` calls of `enumerate`. -/
def tokens (sep trim : List Char) : Nat → List Char → List (List Char)
  | 0, _ => []
  | fuel + 1, text =>
    match enumerateToken sep trim text with
    | some (token, after) => token :: tokens sep trim fuel after
    | none => []

/-- Every token `enumerator_create_token` yields, in order. Each `enumerate` that yields a
token consumes a character at least (`length_lt_of_enumerateToken`), so one call more than
the string has characters reaches the end (`tokens_eq_of_le`). -/
def enumeratorCreateToken (string sep trim : List Char) : List (List Char) :=
  tokens sep trim (string.length + 1) string

/-! ## Fuel -/

theorem eq_append_of_span {p : Char → Bool} {text word rest : List Char}
    (spanned : text.span p = (word, rest)) : text = word ++ rest := by
  rw [List.span_eq_takeWhile_dropWhile, Prod.mk.injEq] at spanned
  rw [← spanned.1, ← spanned.2, List.takeWhile_append_dropWhile]

theorem length_lt_of_quotedToken {text token after : List Char}
    (quoted : quotedToken text = some (token, after)) : after.length < text.length := by
  match text, quoted with
  | quote :: rest, quoted =>
    simp only [quotedToken] at quoted
    split_ifs at quoted
    split at quoted
    · rename_i spanned
      cases quoted
      rw [eq_append_of_span spanned]
      simp only [List.length_cons, List.length_append]
      omega
    · cases quoted

theorem length_lt_of_enumerateToken {sep trim text token after : List Char}
    (enumerated : enumerateToken sep trim text = some (token, after)) : after.length < text.length := by
  have skipped := List.length_dropWhile_le (fun c => trim.contains c || sep.contains c) text
  unfold enumerateToken at enumerated
  dsimp only at enumerated
  split at enumerated
  · rename_i found quoted
    cases enumerated
    exact Nat.lt_of_lt_of_le (length_lt_of_quotedToken quoted) skipped
  · split at enumerated
    · rename_i word rest spanned
      cases enumerated
      have whole := congrArg List.length (eq_append_of_span spanned)
      simp only [List.length_append, List.length_cons] at whole
      omega
    · rename_i word spanned
      split_ifs at enumerated with empty
      cases enumerated
      have whole := congrArg List.length (eq_append_of_span spanned)
      have wordNonempty : word ≠ [] := fun isNil => empty (by rw [isNil]; rfl)
      have wordLength := List.length_pos_iff.mpr wordNonempty
      simp only [List.length_append, List.length_nil, Nat.add_zero] at whole
      simp only [List.length_nil]
      omega

/-- Fuel beyond the length of the text changes nothing. -/
theorem tokens_eq_of_le (sep trim : List Char) :
    ∀ (fuel more : Nat) (text : List Char), text.length < fuel →
      tokens sep trim (fuel + more) text = tokens sep trim fuel text := by
  intro fuel
  induction fuel with
  | zero => intro more text short; exact absurd short (Nat.not_lt_zero _)
  | succ fuel inductionHypothesis =>
    intro more text short
    rw [Nat.add_right_comm, tokens, tokens]
    split
    · rename_i token after enumerated
      rw [inductionHypothesis more after (by have := length_lt_of_enumerateToken enumerated; omega)]
    · rfl

/-! ## Words joined by a separator -/

/-- A word the enumerator hands out as it is: not empty, free of separators, not opening with
a quote or a character it skips, and not ending in one it trims. -/
def PlainWord (sep trim word : List Char) : Prop :=
  word ≠ [] ∧ (∀ c ∈ word, sep.contains c = false) ∧
    (∀ c ∈ word.head?, c ≠ '"' ∧ c ≠ '\'' ∧ trim.contains c = false) ∧
    ∀ c ∈ word.getLast?, trim.contains c = false

section PlainWords

variable {sep trim word : List Char}

theorem trimEnd_plainWord (plain : PlainWord sep trim word) : trimEnd trim word = word := by
  obtain ⟨nonempty, -, -, lastKept⟩ := plain
  have kept := lastKept (word.getLast nonempty) (by rw [List.getLast?_eq_some_getLast nonempty]; rfl)
  rw [← List.dropLast_append_getLast nonempty, trimEnd, List.reverse_append, List.reverse_singleton,
    List.singleton_append, List.dropWhile_cons_of_neg (by rw [kept]; decide), List.reverse_cons,
    List.reverse_reverse]

/-- One `enumerate` hands out a plain word that a separator or the end of the text follows,
and moves past the separator. -/
theorem enumerateToken_plainWord (plain : PlainWord sep trim word) {rest : List Char}
    (follows : ∀ c ∈ rest.head?, sep.contains c = true) :
    enumerateToken sep trim (word ++ rest) = some (word, rest.drop 1) := by
  have kept := trimEnd_plainWord plain
  obtain ⟨nonempty, noSep, firstPlain, -⟩ := plain
  obtain ⟨first, tail, rfl⟩ := List.exists_cons_of_ne_nil nonempty
  obtain ⟨notQuote, notQuote', firstKept⟩ := firstPlain first rfl
  have notSkipped : (first :: tail ++ rest).dropWhile (fun c => trim.contains c || sep.contains c) =
      first :: tail ++ rest := by
    rw [List.cons_append, List.dropWhile_cons_of_neg (by
      simp only [firstKept, noSep first List.mem_cons_self, Bool.or_self, Bool.false_eq_true,
        not_false_eq_true])]
  have notQuoted : quotedToken (first :: tail ++ rest) = none := by
    simp [quotedToken, notQuote, notQuote']
  have spanned : (first :: tail ++ rest).span (fun c => !sep.contains c) = (first :: tail, rest) := by
    rw [List.span_eq_takeWhile_dropWhile, List.takeWhile_append_of_pos (by simpa using noSep),
      List.dropWhile_append_of_pos (by simpa using noSep)]
    cases rest with
    | nil => simp
    | cons next after =>
      simp only [List.takeWhile_cons, List.dropWhile_cons, follows next rfl, Bool.not_true,
        Bool.false_eq_true, if_false, List.append_nil]
  unfold enumerateToken
  dsimp only
  rw [notSkipped, notQuoted]
  dsimp only
  rw [spanned]
  cases rest with
  | nil =>
    dsimp only
    rw [kept, if_neg nonempty]
    rfl
  | cons next after =>
    dsimp only
    rw [kept]
    rfl

end PlainWords

/-- The enumerator yields the plain words that one separator joins, and nothing else. -/
theorem tokens_intercalate {sep trim : List Char} {separator : Char} (separates : sep.contains separator)
    (words : List (List Char)) (plain : ∀ word ∈ words, PlainWord sep trim word) :
    ∀ fuel, (List.intercalate [separator] words).length < fuel →
      tokens sep trim fuel (List.intercalate [separator] words) = words := by
  induction words with
  | nil =>
    intro fuel _
    cases fuel <;> rfl
  | cons word rest inductionHypothesis =>
    intro fuel short
    obtain ⟨fuel, rfl⟩ : ∃ less, fuel = less + 1 := Nat.exists_eq_succ_of_ne_zero (by omega)
    cases rest with
    | nil =>
      have last := @enumerateToken_plainWord sep trim word (plain word List.mem_cons_self) [] (by simp)
      rw [List.append_nil] at last
      simp only [List.intercalate_singleton, tokens, last, List.drop_nil]
      cases fuel <;> rfl
    | cons next others =>
      have first := @enumerateToken_plainWord sep trim word (plain word List.mem_cons_self)
        (separator :: List.intercalate [separator] (next :: others)) (by simpa using separates)
      have joined : List.intercalate [separator] (word :: next :: others) =
          word ++ separator :: List.intercalate [separator] (next :: others) := by
        simp [List.intercalate_cons_cons]
      rw [joined, tokens, first, List.drop_one, List.tail_cons]
      dsimp only
      rw [inductionHypothesis (fun other member => plain other (List.mem_cons_of_mem word member)) fuel
          (by rw [joined] at short; simp at short; omega)]

end StrongSwan.Libstrongswan.Collections
