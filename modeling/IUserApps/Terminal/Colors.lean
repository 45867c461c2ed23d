import IUserApps.Terminal.Params
import IUserApps.Terminal.Sequences

/-!
# Selecting colours

`ESC [`, parameters and `m` select the colours that characters are written in. `select` is what one
code says: the colours after it depend on the colours before it and on nothing else of the screen.
A sequence with several parameters is the codes one after another (`sgr_selects`), so up to eight of
them do what as many sequences with one parameter each would do (`sgr_splits`). Of more than eight
the parser keeps the first seven and the last.
-/

namespace IUserApps.Terminal

open Loops

/-- The colours that characters are written in. -/
structure Colors where
  fg : Color
  bg : Color
deriving DecidableEq, Repr

/-- The colours of the next character. -/
def colors (t : Terminal) : Colors := ⟨t.curFg, t.curBg⟩

/-- The terminal with other colours for the next character. -/
def withColors (t : Terminal) (s : Colors) : Terminal := { t with curFg := s.fg, curBg := s.bg }

/-- The colour of a code, counted from a code of the first of eight; the bright ones come after. -/
def ansiColor (code : ℤ) (base bright : ℤ) : Option Color :=
  if base ≤ code ∧ code < base + 8 then some (kAnsiColors.getD (code - base).toNat 0)
  else if bright ≤ code ∧ code < bright + 8 then some (kAnsiColors.getD (code - bright + 8).toNat 0)
  else none

/-- What one code selects. -/
def select (s : Colors) (code : ℤ) : Colors where
  fg := if code = 0 ∨ code = 39 then kColorDefaultFg else (ansiColor code 30 90).getD s.fg
  bg := if code = 0 ∨ code = 49 then kColorBackground else (ansiColor code 40 100).getD s.bg

/-- The codes that a sequence with parameters carries out: nothing is a reset, and the eighth place
keeps the last of the parameters that come to it. -/
def sgrCodes (ps : List (List Byte)) : List ℤ :=
  if taken ps = [] then [0] else (taken ps).take 7 ++ ((taken ps).drop 7).getLast?.toList

/-- `ESC [`, parameters and `m`. -/
def feedSgr (t : Terminal) (ps : List (List Byte)) : Terminal := parserFeed (feedParams t ps) 0x6D

variable {t : Terminal}

/-- One code on the screen. -/
theorem applySgrCode_eq (t : Terminal) (code : ℤ) :
    applySgrCode t code = t.withColors (select t.colors code) := by
  unfold applySgrCode select ansiColor withColors colors
  split_ifs <;> first | rfl | omega

/-- The codes of a counted loop, one after another. -/
theorem passes_select (n lo : ℕ) (t : Terminal) :
    passes (fun i t => applySgrCode t (t.parser.params i)) n lo t =
      t.withColors (((List.range' lo n).map t.parser.params).foldl select t.colors) := by
  induction n generalizing lo t with
  | zero => rfl
  | succ n ih =>
    show passes _ n (lo + 1) (applySgrCode t (t.parser.params lo)) = _
    rw [ih, applySgrCode_eq]
    rfl

/-- The first places hold the first values. -/
theorem range'_map_eq_take {vs : List ℤ} {f : ℕ → ℤ} {n : ℕ} (hn : n ≤ vs.length)
    (h : ∀ i < n, f i = vs.getD i 0) : (List.range' 0 n).map f = vs.take n := by
  refine List.ext_getElem (by simp [hn]) fun i hi hi' => ?_
  have hin : i < n := by simpa using hi
  rw [List.getElem_map, List.getElem_range', List.getElem_take, one_mul, zero_add, h i hin,
    List.getD_eq_getElem vs 0 (by omega)]

/-- The first seven values, and the last of the others. -/
theorem Holds.codes {vs : List ℤ} (h : Holds vs t) :
    (List.range' 0 (min vs.length 8)).map t.parser.params =
      vs.take 7 ++ (vs.drop 7).getLast?.toList := by
  have hplace : ∀ i < 7, t.parser.params i = vs.getD i 0 := by
    intro i hi
    rw [h.params i (by omega), slots, if_neg (by omega)]
  rcases Nat.lt_or_ge 7 vs.length with hlong | hshort
  · have hlast : (vs.drop 7).getLast?.toList = [t.parser.params 7] := by
      have hne : vs.drop 7 ≠ [] := by simpa using hlong
      rw [h.params 7 (by omega), slots, if_pos rfl, List.getLastD_eq_getLast?,
        List.getLast?_eq_some_getLast hne]
      rfl
    have hsplit : List.range' 0 8 = List.range' 0 7 ++ [7] := rfl
    rw [Nat.min_eq_right hlong, hsplit, List.map_append, hlast,
      range'_map_eq_take (by omega) hplace]
    rfl
  · rw [Nat.min_eq_left (by omega), List.drop_eq_nil_of_le hshort,
      range'_map_eq_take (le_refl _) fun i hi => hplace i (by omega), List.take_of_length_le hshort,
      List.take_length]
    exact (List.append_nil vs).symm

/-- What the parser holds is taken as codes, and nothing is a reset. -/
theorem applySgr_eq {vs : List ℤ} (h : Holds vs t) :
    applySgr t = t.withColors
      ((if vs = [] then [0] else vs.take 7 ++ (vs.drop 7).getLast?.toList).foldl select t.colors) := by
  unfold applySgr
  by_cases hvs : vs = []
  · rw [if_pos hvs, if_pos (by rw [h.count, hvs]; rfl)]
    rfl
  · have hpos : 0 < vs.length := List.length_pos_iff.2 hvs
    rw [if_neg hvs, if_neg (by rw [h.count]; omega)]
    show passes _ (t.parser.paramCount - 0) 0 t = _
    rw [passes_select, h.count, Nat.sub_zero, h.codes]

/-- After the introducer and parameters only the parser has changed. -/
theorem feedParams_ground (hs : t.parser.state = .ground) {ps : List (List Byte)}
    (hps : ∀ p ∈ ps, IsParam p) : ∃ p : VTParser, feedParams t ps = { t with parser := p } := by
  have hparam : ∀ p ∈ ps, ∀ b ∈ p, isCollected b = true := by
    intro p hp b hb
    simp [isCollected, (hps p hp).1 b hb]
  have hsemicolon : isCollected semicolon = true := by decide
  have hjoined : ∀ b ∈ joined ps, isCollected b = true := by
    intro b hb
    cases ps with
    | nil => simp [joined] at hb
    | cons p ps =>
      rcases List.mem_append.1 hb with hfirst | hrest
      · exact hparam p List.mem_cons_self b hfirst
      · obtain ⟨q, hq, hb⟩ := List.mem_flatMap.1 hrest
        rcases List.mem_cons.1 hb with rfl | hb
        · exact hsemicolon
        · exact hparam q (List.mem_cons_of_mem p hq) b hb
  obtain ⟨p, -, hfeed⟩ := feedBytes_introduced hs hjoined
  exact ⟨p, hfeed⟩

/-- A sequence changes the colours as its codes say, one after another, and nothing else. -/
theorem feedSgr_eq (hs : t.parser.state = .ground) {ps : List (List Byte)}
    (hps : ∀ p ∈ ps, IsParam p) : ∃ p : VTParser, p.state = .ground ∧
      feedSgr t ps = { t.withColors ((sgrCodes ps).foldl select t.colors) with parser := p } := by
  have hholds := feedParams_holds hs hps
  obtain ⟨p, hp⟩ := feedParams_ground hs hps
  refine ⟨{ p with state := .ground }, rfl, ?_⟩
  unfold feedSgr
  rw [parserFeed_final hholds.csi (by decide)]
  have hsgr : handleCsi (feedParams t ps) 0x6D = applySgr (feedParams t ps) := rfl
  rw [hsgr, applySgr_eq hholds, hp]
  rfl

/-- A sequence of up to eight parameters, the first of them not empty, has a code for each. -/
theorem sgrCodes_short {p : List Byte} {ps : List (List Byte)} (hp : p ≠ [])
    (hlen : ps.length ≤ 7) : sgrCodes (p :: ps) = (p :: ps).map value := by
  have htaken : taken (p :: ps) = (p :: ps).map value := by rw [taken, if_neg hp]
  unfold sgrCodes
  rw [htaken, if_neg (by simp)]
  generalize hvs : (p :: ps).map value = vs
  have hrest : (vs.drop 7).getLast?.toList = vs.drop 7 := by
    have hle : (vs.drop 7).length ≤ 1 := by
      rw [List.length_drop, ← hvs, List.length_map, List.length_cons]
      omega
    rcases List.eq_nil_or_concat (vs.drop 7) with hnil | ⟨front, v, hcons⟩
    · rw [hnil]
      rfl
    · have hfront : front = [] := by
        rw [hcons, List.concat_eq_append, List.length_append, List.length_singleton] at hle
        exact List.eq_nil_of_length_eq_zero (by omega)
      rw [hcons, hfront]
      rfl
  rw [hrest, List.take_append_drop]

/-- A sequence with one parameter has its code; an empty one is a reset, as zero is. -/
theorem sgrCodes_singleton (p : List Byte) : sgrCodes [p] = [value p] := by
  by_cases hp : p = []
  · rw [hp]
    rfl
  · exact sgrCodes_short hp (by simp)

/-- Sequences with one parameter each, one after another. -/
theorem foldl_feedSgr (hs : t.parser.state = .ground) {ps : List (List Byte)}
    (hps : ∀ p ∈ ps, IsParam p) : ∃ q : VTParser, q.state = .ground ∧
      ps.foldl (fun t p => feedSgr t [p]) t =
        { t.withColors ((ps.map value).foldl select t.colors) with parser := q } := by
  induction ps generalizing t with
  | nil => exact ⟨t.parser, hs, rfl⟩
  | cons p ps ih =>
    have hp : ∀ p' ∈ [p], IsParam p' := List.forall_mem_singleton.2 (hps p List.mem_cons_self)
    obtain ⟨q, hq, hfirst⟩ := feedSgr_eq hs hp
    obtain ⟨q', hq', hrest⟩ := ih (t := feedSgr t [p]) (by rw [hfirst]; exact hq)
      fun p' hp' => hps p' (List.mem_cons_of_mem p hp')
    refine ⟨q', hq', ?_⟩
    rw [List.foldl_cons, hrest, hfirst, sgrCodes_singleton]
    rfl

/-- A sequence changes the colours as its codes say and nothing else, apart from the parser; of up
to eight parameters, of which the first is not empty, each does what a sequence of its own would do.
-/
theorem sgr_selects (hs : t.parser.state = .ground) (ps : List (List Byte))
    (hps : ∀ p ∈ ps, IsParam p) :
    (∃ q : VTParser, q.state = .ground ∧
      feedSgr t ps = { t.withColors ((sgrCodes ps).foldl select t.colors) with parser := q }) ∧
    (ps.headD [] ≠ [] → ps.length ≤ 8 → ∃ q : VTParser, q.state = .ground ∧
      feedSgr t ps = { ps.foldl (fun t p => feedSgr t [p]) t with parser := q }) := by
  obtain ⟨q, hq, heq⟩ := feedSgr_eq hs hps
  refine ⟨⟨q, hq, heq⟩, fun hhead hlen => ⟨q, hq, ?_⟩⟩
  obtain ⟨q', -, hfold⟩ := foldl_feedSgr hs hps
  rw [heq, hfold]
  cases ps with
  | nil => exact absurd rfl hhead
  | cons p ps =>
    have hp : p ≠ [] := hhead
    have hrest : ps.length ≤ 7 := Nat.le_of_succ_le_succ hlen
    rw [sgrCodes_short hp hrest]

/-- Bright red on blue, in one sequence and in two. -/
theorem sgr_selects_two : ∃ q : VTParser, q.state = .ground ∧
    feedSgr created [[0x39, 0x31], [0x34, 0x34]] =
      { feedSgr (feedSgr created [[0x39, 0x31]]) [[0x34, 0x34]] with parser := q } :=
  (sgr_selects rfl [[0x39, 0x31], [0x34, 0x34]] (by decide)).2 (by decide) (by decide)

end IUserApps.Terminal
