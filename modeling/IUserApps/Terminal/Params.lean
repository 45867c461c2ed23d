import Mathlib.Data.List.GetD
import IUserApps.Terminal.Bounds

/-!
# Reading the parameters of a control sequence

`ESC [` is followed by parameters with `;` between them, each a numeral or nothing, and a parameter
that is not given counts as zero. `slots` is what the parser's eight `int`s hold once it has taken
the values `vs` for parameters: the eighth takes every value from the eighth on. `taken` is what it
takes: a `;` starts a parameter, but the first parameter is started by its first digit only, so an
empty one before a `;` is lost and the others move down by one place.

`readsParams_iff` says exactly which parameter lists are read as they are written.
-/

namespace IUserApps.Terminal

/-- A number with one more digit. -/
def extend (v : ℤ) (d : Byte) : ℤ := v * 10 + (d.toNat - '0'.toNat)

/-- The number that digits write; nothing is zero. -/
def value (p : List Byte) : ℤ := p.foldl extend 0

/-- The byte `';'`. -/
def semicolon : Byte := 0x3B

/-- Parameters with `;` between them. -/
def joined : List (List Byte) → List Byte
  | [] => []
  | p :: ps => p ++ ps.flatMap (semicolon :: ·)

/-- A parameter is empty or a numeral that an `int` holds. -/
def IsParam (p : List Byte) : Prop := (∀ d ∈ p, isDigit d = true) ∧ value p < 2^31

instance (p : List Byte) : Decidable (IsParam p) := inferInstanceAs (Decidable (_ ∧ _))

/-- The control sequence introducer, then parameters. -/
def feedParams (t : Terminal) (ps : List (List Byte)) : Terminal :=
  feedBytes t (0x1B :: 0x5B :: joined ps)

/-- The parser holds parameters as they are written: their number, which is none for a single empty
one, and the values of the first eight. -/
def ReadsParams (t : Terminal) (ps : List (List Byte)) : Prop :=
  t.parser.paramCount = (if ps = [[]] then 0 else min ps.length 8) ∧
    ∀ i < 8, i < ps.length → t.parser.params i = value (ps.getD i [])

instance (t : Terminal) (ps : List (List Byte)) : Decidable (ReadsParams t ps) :=
  inferInstanceAs (Decidable (_ ∧ _))

/-- The parameter lists that are read as they are written. Either there is one parameter at most, or
the first is not empty and the last is the eighth or earlier, or has the value of the eighth, or
none of the values tells. -/
def Readable (ps : List (List Byte)) : Prop :=
  ps.length ≤ 1 ∨
  (ps.headD [] ≠ [] ∧ (ps.length ≤ 8 ∨ value (ps.getLastD []) = value (ps.getD 7 []))) ∨
  (8 < ps.length ∧ (∀ i < 8, value (ps.getD i []) = 0) ∧ value (ps.getLastD []) = 0)

/-! ## What the parser holds -/

/-- The parser's parameters once it has taken the values `vs`. -/
def slots (vs : List ℤ) (i : ℕ) : ℤ := if i = 7 then (vs.drop 7).getLastD 0 else vs.getD i 0

/-- The parser is in a control sequence and has taken the values `vs`. -/
structure Holds (vs : List ℤ) (t : Terminal) : Prop where
  csi : t.parser.state = .csi
  count : t.parser.paramCount = min vs.length 8
  params : ∀ i < 8, t.parser.params i = slots vs i

/-- One more value goes to its own place, or over the eighth. -/
theorem slots_concat (vs : List ℤ) (v : ℤ) {i : ℕ} (hi : i < 8) :
    slots (vs ++ [v]) i = if i = min vs.length 7 then v else slots vs i := by
  unfold slots
  by_cases h7 : i = 7
  · -- The eighth place takes the new value once the seven before it are filled.
    rw [if_pos h7, if_pos h7]
    by_cases hmany : 7 ≤ vs.length
    · rw [if_pos (by omega), List.drop_append_of_le_length hmany, List.getLastD_concat]
    · have hfew : (vs ++ [v]).length ≤ 7 := by
        rw [List.length_append, List.length_singleton]
        omega
      rw [if_neg (by omega), List.drop_eq_nil_of_le hfew, List.drop_eq_nil_of_le (by omega)]
  · -- The places before it keep what the list has there.
    rw [if_neg h7, if_neg h7]
    simp only [List.getD_eq_getElem?_getD, List.getElem?_append]
    split
    · next hlt =>
      rw [if_neg (by omega)]
    · next hge =>
      by_cases hnext : i = min vs.length 7
      · have hidx : i - vs.length = 0 := by omega
        rw [if_pos hnext, hidx]
        rfl
      · have hidx : [v].length ≤ i - vs.length := by
          rw [List.length_singleton]
          omega
        rw [if_neg hnext, List.getElem?_eq_none hidx, List.getElem?_eq_none (by omega)]

/-- Eight values or fewer stay where they are. -/
theorem slots_eq_getD {vs : List ℤ} (h : vs.length ≤ 8) (i : ℕ) : slots vs i = vs.getD i 0 := by
  unfold slots
  split
  · next h7 =>
    rw [h7]
    rcases Nat.lt_or_ge vs.length 8 with hlt | hge
    · rw [List.drop_eq_nil_of_le (by omega), List.getD_eq_getElem?_getD,
        List.getElem?_eq_none (by omega)]
      rfl
    · rw [List.getLastD_eq_getLast?, List.getLast?_drop, if_neg (by omega),
        List.getLast?_eq_getElem?, List.getD_eq_getElem?_getD]
      have hlen : vs.length - 1 = 7 := by omega
      rw [hlen]
  · rfl

/-- The last of more than seven values is in the eighth place. -/
theorem slots_last {vs : List ℤ} (h : 7 < vs.length) : slots vs 7 = vs.getLastD 0 := by
  unfold slots
  rw [if_pos rfl, List.getLastD_eq_getLast?, List.getLastD_eq_getLast?, List.getLast?_drop,
    if_neg (by omega)]

/-! ## One byte -/

variable {t : Terminal} {vs : List ℤ}

/-- `;` takes a value of zero. -/
theorem semicolon_holds (h : Holds vs t) : Holds (vs ++ [0]) (parserFeed t semicolon) := by
  have hfeed : parserFeed t semicolon = feedCsi t semicolon := by
    unfold parserFeed
    rw [h.csi]
  have hnotDigit : isDigit semicolon = false := by decide
  have hcount : (if t.parser.paramCount < 8 then t.parser.paramCount + 1
      else t.parser.paramCount) = min (vs.length + 1) 8 := by
    have := h.count
    split <;> omega
  rw [hfeed]
  unfold feedCsi
  simp only [hnotDigit, hcount]
  rw [if_neg (by decide), if_pos (by decide), if_pos (by omega)]
  refine ⟨h.csi, ?_, fun i hi => ?_⟩
  · show min (vs.length + 1) 8 = _
    rw [List.length_append, List.length_singleton]
  · have hplace : min (vs.length + 1) 8 - 1 = min vs.length 7 := by omega
    rw [slots_concat vs 0 hi, hplace]
    show Function.update t.parser.params (min vs.length 7) 0 i = _
    rw [Function.update_apply, h.params i hi]

/-- A digit extends the value in the place that it counts. -/
theorem digit_holds (init : List ℤ) {v : ℤ} (hcsi : t.parser.state = .csi)
    (hcount : t.parser.countAtDigit = min (init.length + 1) 8)
    (hparams : ∀ i < 8, t.parser.params i = slots (init ++ [v]) i) {d : Byte}
    (hd : isDigit d = true) (hfit : FitsInt (extend v d)) :
    Holds (init ++ [extend v d]) (parserFeed t d) := by
  have hfeed : parserFeed t d = feedCsi t d := by
    unfold parserFeed
    rw [hcsi]
  have hplace : t.parser.countAtDigit - 1 = min init.length 7 := by omega
  have hvalue : t.parser.digitValue d = extend v d := by
    unfold VTParser.digitValue
    rw [hplace, hparams _ (by omega), slots_concat init v (by omega), if_pos rfl]
    rfl
  rw [hfeed]
  unfold feedCsi
  simp only
  rw [if_pos hd]
  refine ⟨hcsi, ?_, fun i hi => ?_⟩
  · show t.parser.countAtDigit = _
    rw [hcount, List.length_append, List.length_singleton]
  · show Function.update t.parser.params (t.parser.countAtDigit - 1)
      (int32 (t.parser.digitValue d)) i = _
    rw [hplace, hvalue, int32_of_fits hfit, Function.update_apply, hparams i hi,
      slots_concat _ _ hi, slots_concat _ _ hi]
    split
    · rfl
    · rfl

/-- The places of a digit after a value. -/
theorem Holds.countAtDigit {init : List ℤ} {v : ℤ} (h : Holds (init ++ [v]) t) :
    t.parser.countAtDigit = min (init.length + 1) 8 := by
  have hc := h.count
  rw [List.length_append, List.length_singleton] at hc
  unfold VTParser.countAtDigit
  split <;> omega

/-- The first digit starts the first value, which has been zero. -/
theorem Holds.started (h : Holds [] t) :
    t.parser.countAtDigit = 1 ∧ ∀ i < 8, t.parser.params i = slots ([] ++ [0]) i := by
  refine ⟨?_, fun i hi => ?_⟩
  · have hc : t.parser.paramCount = 0 := h.count
    unfold VTParser.countAtDigit
    rw [if_pos hc]
  · rw [h.params i hi, slots_concat [] 0 hi]
    split
    · next hzero =>
      rw [hzero]
      rfl
    · rfl

/-! ## Parameters -/

/-- A number grows with a digit. -/
theorem le_extend {v : ℤ} (h0 : 0 ≤ v) {d : Byte} (hd : isDigit d = true) : v ≤ extend v d := by
  unfold isDigit at hd
  unfold extend
  simp only [Char.reduceToNat, Bool.and_eq_true, decide_eq_true_eq] at *
  omega

/-- A number grows with digits. -/
theorem le_foldl_extend {ds : List Byte} (hd : ∀ d ∈ ds, isDigit d = true) {v : ℤ} (h0 : 0 ≤ v) :
    v ≤ ds.foldl extend v := by
  induction ds generalizing v with
  | nil => exact Int.le_refl v
  | cons d ds ih =>
    have hnext := le_extend h0 (hd d (List.mem_cons_self ..))
    have hrest := ih (fun d' h' => hd d' (List.mem_cons_of_mem d h')) (Int.le_trans h0 hnext)
    exact Int.le_trans hnext hrest

/-- The digits of a numeral extend the last value, one after another. -/
theorem digits_holds {ds : List Byte} (hd : ∀ d ∈ ds, isDigit d = true) {init : List ℤ} {v : ℤ}
    (h : Holds (init ++ [v]) t) (h0 : 0 ≤ v)
    (hfit : ds.foldl extend v < 2^31) :
    Holds (init ++ [ds.foldl extend v]) (feedBytes t ds) := by
  induction ds generalizing v t with
  | nil => exact h
  | cons d ds ih =>
    have hrest := fun d' h' => hd d' (List.mem_cons_of_mem d h')
    have hdigit := hd d (List.mem_cons_self ..)
    have hnext := Int.le_trans h0 (le_extend h0 hdigit)
    -- The digits to come only make the number larger, so it fits here when it does at the end.
    have hbelow := le_foldl_extend hrest hnext
    have hstep := digit_holds init h.csi h.countAtDigit h.params hdigit
      ⟨by omega, Int.lt_of_le_of_lt hbelow hfit⟩
    exact ih hrest hstep hnext hfit

/-- `;` and a parameter take the parameter's value. -/
theorem param_holds (h : Holds vs t) {p : List Byte} (hp : IsParam p) :
    Holds (vs ++ [value p]) (feedBytes t (semicolon :: p)) :=
  digits_holds hp.1 (semicolon_holds h) (Int.le_refl 0) hp.2

/-- The parameters after the first take their values. -/
theorem rest_holds (ps : List (List Byte)) (h : Holds vs t) (hps : ∀ p ∈ ps, IsParam p) :
    Holds (vs ++ ps.map value) (feedBytes t (ps.flatMap (semicolon :: ·))) := by
  induction ps generalizing vs t with
  | nil =>
    rw [List.map_nil, List.append_nil]
    exact h
  | cons p ps ih =>
    have hsplit : feedBytes t ((p :: ps).flatMap (semicolon :: ·)) =
        feedBytes (feedBytes t (semicolon :: p)) (ps.flatMap (semicolon :: ·)) := by
      unfold feedBytes
      rw [List.flatMap_cons, List.foldl_append]
    have hnext := ih (param_holds h (hps p (List.mem_cons_self ..)))
      (fun q hq => hps q (List.mem_cons_of_mem p hq))
    rw [hsplit, List.map_cons, List.append_cons]
    exact hnext

/-- The first parameter takes a value only when it has a digit. -/
theorem first_holds (h : Holds [] t) {p : List Byte} (hp : IsParam p) :
    Holds (if p = [] then [] else [value p]) (feedBytes t p) := by
  obtain ⟨hd, hfit⟩ := hp
  cases p with
  | nil => exact h
  | cons d ds =>
    obtain ⟨hcount, hparams⟩ := h.started
    have hrest := fun d' h' => hd d' (List.mem_cons_of_mem d h')
    have hdigit := hd d (List.mem_cons_self ..)
    have hfirst := le_extend (Int.le_refl 0) hdigit
    have hbelow := le_foldl_extend hrest hfirst
    have hstep := digit_holds [] h.csi hcount hparams hdigit
      ⟨by omega, Int.lt_of_le_of_lt hbelow hfit⟩
    rw [if_neg (List.cons_ne_nil d ds)]
    exact digits_holds hrest hstep hfirst hfit

/-- The values that the parser takes: an empty first parameter is lost. -/
def taken : List (List Byte) → List ℤ
  | [] => []
  | p :: ps => if p = [] then ps.map value else (p :: ps).map value

/-- `ESC [` and parameters. -/
theorem feedParams_holds {ps : List (List Byte)} (hs : t.parser.state = .ground)
    (hps : ∀ p ∈ ps, IsParam p) : Holds (taken ps) (feedParams t ps) := by
  have hintro : feedBytes t [0x1B, 0x5B] = { t with parser := ⟨.csi, fun _ => 0, 0, false⟩ } := by
    have hesc : parserFeed t 0x1B = { t with parser.state := .escape } := by
      unfold parserFeed feedGround
      rw [hs]
      rfl
    show parserFeed (parserFeed t 0x1B) 0x5B = _
    rw [hesc]
    rfl
  have hstart : Holds [] (feedBytes t [0x1B, 0x5B]) := by
    rw [hintro]
    refine ⟨rfl, rfl, fun i _ => ?_⟩
    unfold slots
    split
    · rfl
    · rfl
  have hsplit : feedParams t ps = feedBytes (feedBytes t [0x1B, 0x5B]) (joined ps) := rfl
  rw [hsplit]
  cases ps with
  | nil => exact hstart
  | cons p ps =>
    -- The first parameter, then a separator and a parameter at a time.
    have hfirst := first_holds hstart (hps p (List.mem_cons_self ..))
    have hrest := rest_holds ps hfirst (fun q hq => hps q (List.mem_cons_of_mem p hq))
    have hjoined : feedBytes (feedBytes t [0x1B, 0x5B]) (joined (p :: ps)) =
        feedBytes (feedBytes (feedBytes t [0x1B, 0x5B]) p) (ps.flatMap (semicolon :: ·)) := by
      unfold feedBytes
      exact List.foldl_append
    have htaken : taken (p :: ps) = (if p = [] then [] else [value p]) ++ ps.map value := by
      by_cases hp : p = []
      · rw [taken, if_pos hp, if_pos hp]
        rfl
      · rw [taken, if_neg hp, if_neg hp]
        rfl
    rw [hjoined, htaken]
    exact hrest

/-! ## Which lists are read -/

/-- The value of a parameter that is not there is 0. -/
theorem getD_map_value (ps : List (List Byte)) (i : ℕ) :
    (ps.map value).getD i 0 = value (ps.getD i []) :=
  List.getD_map (d := []) ps value

/-- The last value is the last parameter's. -/
theorem getLastD_map_value (ps : List (List Byte)) :
    (ps.map value).getLastD 0 = value (ps.getLastD []) := by
  rw [List.getLastD_eq_getLast?, List.getLastD_eq_getLast?, List.getLast?_map]
  cases ps.getLast? with
  | none => rfl
  | some p => rfl

/-- The values of up to eight parameters, and the first seven of more, are in their places. -/
theorem slots_map_value (ps : List (List Byte)) {i : ℕ} (h : ps.length ≤ 8 ∨ i < 7) :
    slots (ps.map value) i = value (ps.getD i []) := by
  rw [← getD_map_value]
  rcases h with hle | hlt
  · exact slots_eq_getD (by rw [List.length_map]; exact hle) i
  · unfold slots
    rw [if_neg (by omega)]

/-- The last of more than seven parameters is in the eighth place. -/
theorem slots_map_last {ps : List (List Byte)} (h : 7 < ps.length) :
    slots (ps.map value) 7 = value (ps.getLastD []) := by
  rw [← getLastD_map_value]
  exact slots_last (by rw [List.length_map]; exact h)

/-- With a value for each parameter, the eighth is what can go wrong. -/
theorem readsParams_of_taken {ps : List (List Byte)} (h : Holds (ps.map value) t)
    (hne : ps ≠ [[]]) :
    ReadsParams t ps ↔ ps.length ≤ 8 ∨ value (ps.getLastD []) = value (ps.getD 7 []) := by
  have hcount : t.parser.paramCount = min ps.length 8 := by
    rw [h.count, List.length_map]
  unfold ReadsParams
  rw [if_neg hne]
  constructor
  · rintro ⟨-, hread⟩
    rcases Nat.lt_or_ge 8 ps.length with hmany | hfew
    · have h7 := hread 7 (by omega) (by omega)
      rw [h.params 7 (by omega), slots_map_last (by omega)] at h7
      exact Or.inr h7
    · exact Or.inl hfew
  · intro hcond
    refine ⟨hcount, fun i hi hlt => ?_⟩
    rw [h.params i hi]
    rcases hcond with hfew | hlast
    · exact slots_map_value ps (Or.inl hfew)
    · by_cases h7 : i = 7
      · rw [h7, slots_map_last (by omega), hlast]
      · exact slots_map_value ps (Or.inr (by omega))

/-- With the first parameter lost, every value is in the place before its own, and the number is
right only when it is eight in any case. -/
theorem readsParams_of_lost {ps : List (List Byte)} (h : Holds (ps.map value) t)
    (hne : ps ≠ []) :
    ReadsParams t ([] :: ps) ↔ 8 ≤ ps.length ∧ (∀ i < 8, value (([] :: ps).getD i []) = 0) ∧
      value (([] :: ps).getLastD []) = 0 := by
  have hcount : t.parser.paramCount = min ps.length 8 := by
    rw [h.count, List.length_map]
  have hpos : 0 < ps.length := List.length_pos_iff.2 hne
  have hlast : ([] :: ps).getLastD [] = ps.getLastD [] := by
    rw [List.getLastD_cons]
  have hplace : ∀ i < 7, t.parser.params i = value (([] :: ps).getD (i + 1) []) := by
    intro i hi
    rw [h.params i (by omega), slots_map_value ps (Or.inr hi)]
    rfl
  unfold ReadsParams
  rw [if_neg (fun heq => hne (List.cons.inj heq).2), List.length_cons, hcount, hlast]
  constructor
  · rintro ⟨hnumber, hread⟩
    -- One of the parameters is not counted, which only the limit of eight hides.
    have hmany : 8 ≤ ps.length := by omega
    -- Each place holds its own value and the next one's, so all are equal to the empty first.
    have hzero : ∀ i < 8, value (([] :: ps).getD i []) = 0 := by
      intro i
      induction i with
      | zero => exact fun _ => rfl
      | succ i ih =>
        intro hi
        rw [← hplace i (by omega), hread i (by omega) (by omega)]
        exact ih (by omega)
    refine ⟨hmany, hzero, ?_⟩
    rw [← slots_map_last hmany, ← h.params 7 (by omega), hread 7 (by omega) (by omega)]
    exact hzero 7 (by omega)
  · rintro ⟨hmany, hzero, hend⟩
    refine ⟨by omega, fun i hi _ => ?_⟩
    rw [hzero i hi]
    by_cases h7 : i = 7
    · rw [h7, h.params 7 (by omega), slots_map_last hmany, hend]
    · rw [hplace i (by omega)]
      exact hzero (i + 1) (by omega)

/-- Parameters after `ESC [` are read as they are written exactly when there is one at most, or the
first is not empty and the eighth is not written over by another value, or when there are more than
eight and none of the values tells. -/
theorem readsParams_iff {ps : List (List Byte)} (hs : t.parser.state = .ground)
    (hps : ∀ p ∈ ps, IsParam p) : ReadsParams (feedParams t ps) ps ↔ Readable ps := by
  have h := feedParams_holds hs hps
  unfold Readable
  cases ps with
  | nil =>
    refine iff_of_true ⟨h.count, fun i _ hlt => absurd hlt (Nat.not_lt_zero i)⟩ (Or.inl (by decide))
  | cons p ps =>
    by_cases hp : p = []
    · -- An empty first parameter: alone it is read, before others it is lost.
      rw [taken, if_pos hp] at h
      subst hp
      cases ps with
      | nil =>
        refine iff_of_true ⟨h.count, fun i hi hlt => ?_⟩ (Or.inl (by decide))
        rw [h.params i hi, slots_map_value [] (Or.inl (by decide))]
        have hi0 : i = 0 := Nat.lt_one_iff.1 hlt
        rw [hi0]
        rfl
      | cons q ps =>
        rw [readsParams_of_lost h (List.cons_ne_nil q ps)]
        have hhead : ¬ (([] : List Byte) :: q :: ps).headD [] ≠ [] := fun hne => hne rfl
        simp only [List.length_cons]
        constructor
        · rintro ⟨hmany, hzero⟩
          exact Or.inr (Or.inr ⟨by omega, hzero⟩)
        · rintro (hone | ⟨hne, -⟩ | ⟨hmany, hzero⟩)
          · omega
          · exact absurd hne hhead
          · exact ⟨by omega, hzero⟩
    · rw [taken, if_neg hp] at h
      have hne : p :: ps ≠ [[]] := fun heq => hp (List.cons.inj heq).1
      rw [readsParams_of_taken h hne]
      constructor
      · intro hcond
        exact Or.inr (Or.inl ⟨hp, hcond⟩)
      · rintro (hone | ⟨-, hcond⟩ | ⟨-, hzero, hend⟩)
        · exact Or.inl (by omega)
        · exact hcond
        · exact Or.inr (by rw [hend, hzero 7 (by decide)])

/-- `ESC [ 1 ; 4 2`: two numerals are read. -/
theorem readsParams_two : ReadsParams (feedParams created [[0x31], [0x34, 0x32]])
    [[0x31], [0x34, 0x32]] := by
  have hps : ∀ p ∈ [[0x31], [0x34, 0x32]], IsParam p := by decide
  exact (readsParams_iff rfl hps).2 (Or.inr (Or.inl ⟨by decide, Or.inl (by decide)⟩))

/-- `ESC [ ; 5`: the empty parameter is lost. `ESC [ 0 ; 0 ; 0 ; 0 ; 0 ; 0 ; 0 ; 8 ; 9`: the ninth
parameter is in the place of the eighth. -/
theorem emptyFirst_lost :
    ¬ ReadsParams (feedParams created [[], [0x35]]) [[], [0x35]] ∧
    (feedParams created [[], [0x35]]).parser.paramCount = 1 ∧
    (feedParams created [[], [0x35]]).parser.params 0 = 5 ∧
    (feedParams created [[0x30], [], [], [], [], [], [], [0x38], [0x39]]).parser.params 7 = 9 := by
  decide

end IUserApps.Terminal
