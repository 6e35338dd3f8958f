import Mathlib.Data.List.GetD
import Mathlib.Logic.Function.Iterate
import Mathlib.Tactic.Ring
import Mathlib.Tactic.Set

/-!
Contract: in-place butterfly networks on a list of coefficients, in the shape
the number-theoretic transforms run them: a loop over the pairs
`(j, j + len)` of one block, a loop over the blocks of one layer with one
twiddle factor each, and a loop over the layers. The butterfly, the table of
twiddle factors, how the table index moves from block to block and how `len`
moves from layer to layer are parameters.

Owns: the three loops; what the pair loop and the block loop leave at every
position of a block and that they leave every other position as it was; that
they keep the length; and that a map of the coefficients that commutes with
the butterfly commutes with the whole network, for coefficients in a set that
every butterfly keeps. The last is the bridge from machine words, where the
arithmetic is only right while no sum wraps, to the ring the transform is
about.

Does not own: what a butterfly computes. The algebra of the transforms is in
`NegacyclicNtt`.
-/

namespace StrongSwan.Foundations.ButterflyNetwork

variable {α β : Type*} [Zero α] [Zero β]

/-- `count` butterflies on the pairs `(j, j + len)`, `(j + 1, j + 1 + len)`,
…; each reads both entries of its pair before it writes them. -/
def butterflies (bf : α → α → α × α) (len : Nat) : Nat → Nat → List α → List α
  | 0, _, f => f
  | count + 1, j, f =>
      let out := bf (f.getD j 0) (f.getD (j + len) 0)
      butterflies bf len count (j + 1) ((f.set j out.1).set (j + len) out.2)

theorem butterflies_succ (bf : α → α → α × α) (len count j : Nat) (f : List α) :
    butterflies bf len (count + 1) j f =
      butterflies bf len count (j + 1)
        ((f.set j (bf (f.getD j 0) (f.getD (j + len) 0)).1).set (j + len)
          (bf (f.getD j 0) (f.getD (j + len) 0)).2) := rfl

/-- One layer: `count` blocks of `2 * len` entries from `start` on, each
transformed by the pair loop with twiddle factor `zetas i`, the index moving
by `next` from one block to the next. Returns the index after the last block
with the coefficients. -/
def layer (bf : α → α → α → α × α) (zetas : Nat → α) (next : Nat → Nat) (len : Nat) :
    Nat → Nat → Nat → List α → Nat × List α
  | 0, _, i, f => (i, f)
  | count + 1, start, i, f =>
      layer bf zetas next len count (start + 2 * len) (next i)
        (butterflies (bf (zetas i)) len len start f)

theorem layer_succ (bf : α → α → α → α × α) (zetas : Nat → α) (next : Nat → Nat)
    (len count start i : Nat) (f : List α) :
    layer bf zetas next len (count + 1) start i f =
      layer bf zetas next len count (start + 2 * len) (next i)
        (butterflies (bf (zetas i)) len len start f) := rfl

/-- `layers` layers over `size` coefficients: a layer with pairs `len` apart
has `size / (2 * len)` blocks, and the next one has pairs `nextLen len`
apart. The table index runs on from layer to layer. -/
def network (bf : α → α → α → α × α) (zetas : Nat → α) (next nextLen : Nat → Nat)
    (size : Nat) : Nat → Nat → Nat → List α → List α
  | 0, _, _, f => f
  | layers + 1, len, i, f =>
      let result := layer bf zetas next len (size / (2 * len)) 0 i f
      network bf zetas next nextLen size layers (nextLen len) result.1 result.2

theorem network_succ (bf : α → α → α → α × α) (zetas : Nat → α) (next nextLen : Nat → Nat)
    (size layers len i : Nat) (f : List α) :
    network bf zetas next nextLen size (layers + 1) len i f =
      network bf zetas next nextLen size layers (nextLen len)
        (layer bf zetas next len (size / (2 * len)) 0 i f).1
        (layer bf zetas next len (size / (2 * len)) 0 i f).2 := rfl

/-! ## Reading and writing one position -/

theorem getD_set_self {f : List α} {k : Nat} (a : α) (within : k < f.length) :
    (f.set k a).getD k 0 = a := by
  simp [List.getD_eq_getElem?_getD, within]

theorem getD_set_of_ne {f : List α} {k m : Nat} (a : α) (differ : k ≠ m) :
    (f.set k a).getD m 0 = f.getD m 0 := by
  simp [List.getD_eq_getElem?_getD, differ]

/-- Every read of a list whose entries satisfy `P` satisfies `P`, the default
included. -/
theorem getD_of_forall {P : α → Prop} {f : List α} (zero : P 0) (all : ∀ x ∈ f, P x)
    (k : Nat) : P (f.getD k 0) := by
  rw [List.getD_eq_getElem?_getD]
  cases lookup : f[k]? with
  | none => exact zero
  | some x => exact all x (List.mem_of_getElem? lookup)

omit [Zero α] in
theorem forall_set {P : α → Prop} {f : List α} (all : ∀ x ∈ f, P x) {a : α} (holds : P a)
    (k : Nat) : ∀ x ∈ f.set k a, P x := by
  intro x member
  rcases List.mem_or_eq_of_mem_set member with old | rfl
  · exact all x old
  · exact holds

/-! ## The pair loop -/

section Butterflies

variable (bf : α → α → α × α) (len : Nat)

@[simp]
theorem length_butterflies (count j : Nat) (f : List α) :
    (butterflies bf len count j f).length = f.length := by
  induction count generalizing j f with
  | zero => rfl
  | succ count ih => rw [butterflies_succ, ih, List.length_set, List.length_set]

/-- The pair loop leaves every position outside its pairs as it was. -/
theorem getD_butterflies_of_ne {k : Nat} (count j : Nat) (f : List α)
    (outside : ∀ m < count, j + m ≠ k ∧ j + m + len ≠ k) :
    (butterflies bf len count j f).getD k 0 = f.getD k 0 := by
  induction count generalizing j f with
  | zero => rfl
  | succ count ih =>
    have first := outside 0 (Nat.zero_lt_succ count)
    simp only [Nat.add_zero] at first
    rw [butterflies_succ, ih (j + 1) _ (fun m below => by
        obtain ⟨later, later'⟩ := outside (m + 1) (by omega)
        exact ⟨by omega, by omega⟩),
      getD_set_of_ne _ first.2, getD_set_of_ne _ first.1]

variable {bf len}

/-- Pair `m` of the loop holds the butterfly of the entries it started with,
first at `j + m` and second at `j + m + len`. -/
theorem getD_butterflies {count : Nat} (short : count ≤ len) {j : Nat} {f : List α}
    (fits : j + len + count ≤ f.length) {m : Nat} (within : m < count) :
    (butterflies bf len count j f).getD (j + m) 0
        = (bf (f.getD (j + m) 0) (f.getD (j + m + len) 0)).1 ∧
      (butterflies bf len count j f).getD (j + m + len) 0
        = (bf (f.getD (j + m) 0) (f.getD (j + m + len) 0)).2 := by
  induction count generalizing j f m with
  | zero => omega
  | succ count ih =>
    rw [butterflies_succ]
    set out := bf (f.getD j 0) (f.getD (j + len) 0)
    have lengthSet : ((f.set j out.1).set (j + len) out.2).length = f.length := by simp
    cases m with
    | zero =>
      -- the first pair is written here and never touched by the rest of the loop
      have later : ∀ k, k = j ∨ k = j + len →
          ∀ m < count, j + 1 + m ≠ k ∧ j + 1 + m + len ≠ k := by
        intro k which m below
        omega
      have inFirst : j < f.length := by omega
      have inSecond : j + len < (f.set j out.1).length := by simp; omega
      have apart : j + len ≠ j := by omega
      show (butterflies bf len count (j + 1) _).getD j 0 = _ ∧
        (butterflies bf len count (j + 1) _).getD (j + len) 0 = _
      rw [getD_butterflies_of_ne bf len count _ _ (later j (.inl rfl)),
        getD_butterflies_of_ne bf len count _ _ (later (j + len) (.inr rfl)),
        getD_set_self _ inSecond, getD_set_of_ne _ apart, getD_set_self _ inFirst]
      exact ⟨rfl, rfl⟩
    | succ m =>
      -- a later pair reads entries that the first pair did not write
      have shift : j + (m + 1) = j + 1 + m := by omega
      obtain ⟨fst, snd⟩ := @ih (by omega) (j + 1) ((f.set j out.1).set (j + len) out.2)
        (by rw [lengthSet]; omega) m (by omega)
      have unwritten : ∀ k, j ≠ k → j + len ≠ k →
          ((f.set j out.1).set (j + len) out.2).getD k 0 = f.getD k 0 := by
        intro k first second
        rw [getD_set_of_ne _ second, getD_set_of_ne _ first]
      rw [shift, fst, snd, unwritten _ (by omega) (by omega),
        unwritten _ (by omega) (by omega)]
      exact ⟨rfl, rfl⟩

end Butterflies

/-! ## The block loop -/

section Layer

variable (bf : α → α → α → α × α) (zetas : Nat → α) (next : Nat → Nat) (len : Nat)

@[simp]
theorem length_layer (count start i : Nat) (f : List α) :
    (layer bf zetas next len count start i f).2.length = f.length := by
  induction count generalizing start i f with
  | zero => rfl
  | succ count ih => rw [layer_succ, ih, length_butterflies]

theorem layer_index (count start i : Nat) (f : List α) :
    (layer bf zetas next len count start i f).1 = next^[count] i := by
  induction count generalizing start i f with
  | zero => rfl
  | succ count ih => rw [layer_succ, ih, Function.iterate_succ_apply]

/-- The block loop leaves every position before its first block as it was. -/
theorem getD_layer_of_lt {k : Nat} (count start i : Nat) (f : List α) (before : k < start) :
    (layer bf zetas next len count start i f).2.getD k 0 = f.getD k 0 := by
  induction count generalizing start i f with
  | zero => rfl
  | succ count ih =>
    rw [layer_succ, ih _ _ _ (by omega),
      getD_butterflies_of_ne _ _ _ _ _ (fun m _ => ⟨by omega, by omega⟩)]

variable {bf zetas next len}

/-- Block `b` of the loop holds the pair loop's result on the entries it
started with, under the `b`-th twiddle factor. -/
theorem getD_layer {count start : Nat} {f : List α} (fits : start + 2 * len * count ≤ f.length)
    (i : Nat) {b : Nat} (block : b < count) {m : Nat} (within : m < len) :
    (layer bf zetas next len count start i f).2.getD (start + 2 * len * b + m) 0
        = (bf (zetas (next^[b] i)) (f.getD (start + 2 * len * b + m) 0)
            (f.getD (start + 2 * len * b + m + len) 0)).1 ∧
      (layer bf zetas next len count start i f).2.getD (start + 2 * len * b + m + len) 0
        = (bf (zetas (next^[b] i)) (f.getD (start + 2 * len * b + m) 0)
            (f.getD (start + 2 * len * b + m + len) 0)).2 := by
  induction count generalizing start i f b with
  | zero => omega
  | succ count ih =>
    rw [layer_succ]
    set g := butterflies (bf (zetas i)) len len start f
    have lengthG : g.length = f.length := length_butterflies _ _ _ _ _
    cases b with
    | zero =>
      -- the first block is done by the pair loop and never touched again
      rw [Nat.mul_zero, Nat.add_zero, getD_layer_of_lt _ _ _ _ _ _ _ _ (by omega),
        getD_layer_of_lt _ _ _ _ _ _ _ _ (by omega)]
      exact getD_butterflies (le_refl len) (by rw [Nat.mul_succ] at fits; omega) within
    | succ b =>
      -- a later block reads entries the first block did not write
      have shift : start + 2 * len * (b + 1) = start + 2 * len + 2 * len * b := by ring
      obtain ⟨fst, snd⟩ := @ih (start + 2 * len) g
        (by rw [lengthG]; rw [Nat.mul_succ] at fits; omega) (next i) b (by omega)
      have unwritten : ∀ k, start + 2 * len ≤ k → g.getD k 0 = f.getD k 0 := fun k after =>
        getD_butterflies_of_ne _ _ _ _ _ (fun m below => ⟨by omega, by omega⟩)
      rw [shift, fst, snd, unwritten _ (by omega), unwritten _ (by omega),
        Function.iterate_succ_apply]
      exact ⟨rfl, rfl⟩

end Layer

@[simp]
theorem length_network (bf : α → α → α → α × α) (zetas : Nat → α) (next nextLen : Nat → Nat)
    (size layers len i : Nat) (f : List α) :
    (network bf zetas next nextLen size layers len i f).length = f.length := by
  induction layers generalizing len i f with
  | zero => rfl
  | succ layers ih => rw [network_succ, ih, length_layer]

/-! ## Changing the coefficient type

A map `φ` that commutes with the butterflies on a set `P` of coefficients
that they keep commutes with every loop, and the loops keep `P`. -/

section Simulation

variable (φ : α → β) (P : α → Prop) (zero : P 0) (mapsZero : φ 0 = 0)
include zero mapsZero

/-- The pair loop keeps `P` and commutes with `φ`. -/
theorem map_butterflies {bfA : α → α → α × α} {bfB : β → β → β × β}
    (keeps : ∀ a b, P a → P b → P (bfA a b).1 ∧ P (bfA a b).2)
    (commutes : ∀ a b, P a → P b → bfB (φ a) (φ b) = (φ (bfA a b).1, φ (bfA a b).2))
    (len count j : Nat) {f : List α} (all : ∀ x ∈ f, P x) :
    (∀ x ∈ butterflies bfA len count j f, P x) ∧
      (butterflies bfA len count j f).map φ = butterflies bfB len count j (f.map φ) := by
  induction count generalizing j f with
  | zero => exact ⟨all, rfl⟩
  | succ count ih =>
    have reads := keeps _ _ (getD_of_forall zero all j) (getD_of_forall zero all (j + len))
    have stepped := forall_set (forall_set all reads.1 j) reads.2 (j + len)
    obtain ⟨kept, mapped⟩ := ih (j + 1) stepped
    refine ⟨kept, ?_⟩
    rw [butterflies_succ, butterflies_succ, mapped, List.map_set, List.map_set, ← mapsZero,
      List.getD_map, List.getD_map,
      commutes _ _ (getD_of_forall zero all j) (getD_of_forall zero all (j + len))]

variable {φ P}

/-- The block loop keeps `P` and commutes with `φ`, for twiddle factors in `P`. -/
theorem map_layer {bfA : α → α → α → α × α} {bfB : β → β → β → β × β} {zetas : Nat → α}
    (keeps : ∀ z a b, P z → P a → P b → P (bfA z a b).1 ∧ P (bfA z a b).2)
    (commutes : ∀ z a b, P z → P a → P b →
      bfB (φ z) (φ a) (φ b) = (φ (bfA z a b).1, φ (bfA z a b).2))
    (factors : ∀ i, P (zetas i)) (next : Nat → Nat) (len count start i : Nat) {f : List α}
    (all : ∀ x ∈ f, P x) :
    (layer bfA zetas next len count start i f).1 = (layer bfB (φ ∘ zetas) next len count start i (f.map φ)).1 ∧
      (∀ x ∈ (layer bfA zetas next len count start i f).2, P x) ∧
      (layer bfA zetas next len count start i f).2.map φ
        = (layer bfB (φ ∘ zetas) next len count start i (f.map φ)).2 := by
  induction count generalizing start i f with
  | zero => exact ⟨rfl, all, rfl⟩
  | succ count ih =>
    obtain ⟨kept, mapped⟩ := map_butterflies φ P zero mapsZero
      (fun a b => keeps (zetas i) a b (factors i)) (commutes (zetas i) · · (factors i))
      len len start all
    obtain ⟨index, kept', mapped'⟩ := ih (start + 2 * len) (next i) kept
    refine ⟨?_, kept', ?_⟩
    · rw [layer_succ, layer_succ, index, mapped]
      rfl
    · rw [layer_succ, layer_succ, mapped', mapped]
      rfl

/-- The whole network keeps `P` and commutes with `φ`. -/
theorem map_network {bfA : α → α → α → α × α} {bfB : β → β → β → β × β} {zetas : Nat → α}
    (keeps : ∀ z a b, P z → P a → P b → P (bfA z a b).1 ∧ P (bfA z a b).2)
    (commutes : ∀ z a b, P z → P a → P b →
      bfB (φ z) (φ a) (φ b) = (φ (bfA z a b).1, φ (bfA z a b).2))
    (factors : ∀ i, P (zetas i)) (next nextLen : Nat → Nat) (size layers len i : Nat)
    {f : List α} (all : ∀ x ∈ f, P x) :
    (∀ x ∈ network bfA zetas next nextLen size layers len i f, P x) ∧
      (network bfA zetas next nextLen size layers len i f).map φ
        = network bfB (φ ∘ zetas) next nextLen size layers len i (f.map φ) := by
  induction layers generalizing len i f with
  | zero => exact ⟨all, rfl⟩
  | succ layers ih =>
    obtain ⟨index, kept, mapped⟩ :=
      map_layer zero mapsZero keeps commutes factors next len (size / (2 * len)) 0 i all
    obtain ⟨kept', mapped'⟩ := ih (nextLen len) _ kept
    refine ⟨kept', ?_⟩
    rw [network_succ, network_succ, mapped', mapped, index]

end Simulation

/-! ## Networks on repeated blocks

Inputs made of equal blocks, the zero list first, go through a layer block by
block; this is how a network is run on a fixed input without unfolding its
loops. -/

section Blocks

theorem getD_replicate_zero (n k : Nat) : (List.replicate n (0 : α)).getD k 0 = 0 := by
  rw [List.getD_eq_getElem?_getD, List.getElem?_replicate]
  split <;> rfl

theorem getD_map_of_lt {l : List α} (h : α → β) {r : Nat} (within : r < l.length) :
    (l.map h).getD r 0 = h (l.getD r 0) := by
  rw [List.getD_eq_getElem _ _ (by simpa using within), List.getElem_map,
    List.getD_eq_getElem _ _ within]

/-- Lists of one length that agree at every read are equal. -/
theorem ext_getD {f g : List α} (length : f.length = g.length)
    (reads : ∀ k < f.length, f.getD k 0 = g.getD k 0) : f = g := by
  apply List.ext_getElem length
  intro k inF inG
  rw [← List.getD_eq_getElem _ 0 inF, ← List.getD_eq_getElem _ 0 inG]
  exact reads k inF

theorem getD_flatten_replicate {P : List α} {len : Nat} (sized : P.length = len) {b m : Nat}
    (count : Nat) (block : b < count) (within : m < len) :
    ((List.replicate count P).flatten).getD (len * b + m) 0 = P.getD m 0 := by
  induction count generalizing b with
  | zero => omega
  | succ count ih =>
    rw [List.replicate_succ, List.flatten_cons]
    cases b with
    | zero => rw [Nat.mul_zero, Nat.zero_add, List.getD_append _ _ _ _ (by omega)]
    | succ b =>
      rw [List.getD_append_right _ _ _ _ (by rw [sized, Nat.mul_succ]; omega), sized,
        show len * (b + 1) + m - len = len * b + m by rw [Nat.mul_succ]; omega]
      exact ih (by omega)

theorem butterflies_replicate_zero {bf : α → α → α × α} (fixes : bf 0 0 = (0, 0))
    (len count j n : Nat) :
    butterflies bf len count j (List.replicate n 0) = List.replicate n 0 := by
  induction count generalizing j with
  | zero => rfl
  | succ count ih =>
    rw [butterflies_succ, getD_replicate_zero, getD_replicate_zero, fixes, List.set_replicate_self,
      List.set_replicate_self, ih]

variable {bf : α → α → α → α × α} {zetas : Nat → α} {next : Nat → Nat}

theorem layer_replicate_zero (fixes : ∀ z, bf z 0 0 = (0, 0)) (len count start i n : Nat) :
    (layer bf zetas next len count start i (List.replicate n 0)).2 = List.replicate n 0 := by
  induction count generalizing start i with
  | zero => rfl
  | succ count ih => rw [layer_succ, butterflies_replicate_zero (fixes _), ih]

/-- A network whose butterfly takes two zeros to two zeros keeps the zero
list. -/
theorem network_replicate_zero (fixes : ∀ z, bf z 0 0 = (0, 0)) (nextLen : Nat → Nat)
    (size layers len i n : Nat) :
    network bf zetas next nextLen size layers len i (List.replicate n 0) = List.replicate n 0 := by
  induction layers generalizing len i with
  | zero => rfl
  | succ layers ih => rw [network_succ, layer_replicate_zero fixes, ih]

/-- A layer over `2 * count` copies of one block `P`, whose butterfly on two
equal entries of `P` gives the same pair `g x` under every twiddle factor it
reads, gives `count` copies of the block's first images followed by its
second images. -/
theorem layer_twin_blocks {len count : Nat} {P : List α} (sized : P.length = len) (i : Nat)
    {g : α → α × α} (uniform : ∀ b < count, ∀ x ∈ P, bf (zetas (next^[b] i)) x x = g x) :
    (layer bf zetas next len count 0 i (List.replicate (2 * count) P).flatten).2
      = (List.replicate count (P.map (fun x => (g x).1) ++ P.map (fun x => (g x).2))).flatten := by
  set f := (List.replicate (2 * count) P).flatten
  have lengthF : f.length = 2 * count * len := by simp [f, sized]
  have fits : 0 + 2 * len * count ≤ f.length := by rw [lengthF]; apply le_of_eq; ring
  have images : (P.map (fun x => (g x).1) ++ P.map (fun x => (g x).2)).length = 2 * len := by
    simp [sized]; ring
  have twin : ∀ b < count, ∀ m < len,
      f.getD (0 + 2 * len * b + m) 0 = P.getD m 0 ∧ f.getD (0 + 2 * len * b + m + len) 0 = P.getD m 0 := by
    intro b block m within
    refine ⟨?_, ?_⟩
    · rw [show 0 + 2 * len * b + m = len * (2 * b) + m by ring]
      exact getD_flatten_replicate sized _ (by omega) within
    · rw [show 0 + 2 * len * b + m + len = len * (2 * b + 1) + m by ring]
      exact getD_flatten_replicate sized _ (by omega) within
  have member : ∀ m < len, P.getD m 0 ∈ P := fun m within => by
    rw [List.getD_eq_getElem _ _ (by omega)]
    exact List.getElem_mem _
  apply ext_getD
  · simp [lengthF, images]
    ring
  · intro k below
    rw [length_layer, lengthF] at below
    have positive : 0 < len := by
      rcases Nat.eq_zero_or_pos len with rfl | positive
      · simp at below
      · exact positive
    have block : k / (2 * len) < count := by
      rw [Nat.div_lt_iff_lt_mul (by omega)]
      calc k < 2 * count * len := below
        _ = count * (2 * len) := by ring
    have split := Nat.div_add_mod k (2 * len)
    have rest := Nat.mod_lt k (show 0 < 2 * len by omega)
    set b := k / (2 * len)
    set r := k % (2 * len)
    have reads := twin b block
    by_cases low : r < len
    · rw [← split, show 2 * len * b + r = 0 + 2 * len * b + r by ring,
        (getD_layer fits i block low).1, (reads r low).1, (reads r low).2,
        uniform b block _ (member r low), show 0 + 2 * len * b + r = 2 * len * b + r by ring,
        getD_flatten_replicate images _ block rest,
        List.getD_append _ _ _ _ (by simp [sized]; omega), getD_map_of_lt _ (by omega)]
    · obtain ⟨m, high⟩ : ∃ m, r = m + len := ⟨r - len, by omega⟩
      rw [high] at split rest
      rw [← split, show 2 * len * b + (m + len) = 0 + 2 * len * b + m + len by ring,
        (getD_layer fits i block (by omega)).2, (reads m (by omega)).1, (reads m (by omega)).2,
        uniform b block _ (member m (by omega)),
        show 0 + 2 * len * b + m + len = 2 * len * b + (m + len) by ring,
        getD_flatten_replicate images _ block rest,
        List.getD_append_right _ _ _ _ (by simp [sized]),
        show m + len - (P.map (fun x => (g x).1)).length = m by simp [sized],
        getD_map_of_lt _ (by omega)]

end Blocks

end StrongSwan.Foundations.ButterflyNetwork
