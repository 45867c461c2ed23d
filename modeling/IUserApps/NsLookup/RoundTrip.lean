import IUserApps.NsLookup.Names
import Mathlib.Data.List.TakeWhile

/-!
# Names written and read back

A domain name is a list of labels of 1 to 63 octets whose wire form has 255 octets at most. `putName`
is meant to write just those, and `getName` to read back what it wrote. It tells a name's length by
the offset in the query at which the name ends, so it refuses names that are short enough and, at
offset zero, takes one that is too long; and `getName` asks for one octet more than it needs when a
name is a single label. `putName_getName_iff` is the exact condition under which none of this
happens.
-/

namespace IUserApps.NsLookup

open Checked

/-- A label: 1 to 63 octets, no dot and no NUL. -/
structure LabelOk (label : List Byte) : Prop where
  length_pos : 0 < label.length
  length_le : label.length ≤ 63
  dot_notMem : dot ∉ label
  nul_notMem : 0 ∉ label

/-- The wire form of a name: each label after its length, then the root. -/
def wire (labels : List (List Byte)) : List Byte :=
  labels.flatMap (fun label => (label.length : Byte) :: label) ++ [0]

/-- The dotted form of a name. -/
def dotted (labels : List (List Byte)) : List Byte := List.intercalate [dot] labels

/-- The string is a name's dotted form, or has a dot after it. -/
def Spells (s : List Byte) (labels : List (List Byte)) : Prop :=
  s = dotted labels ∨ s = dotted labels ++ [dot]

/-- One or more labels, with a wire form of 255 octets at most. -/
structure IsName (labels : List (List Byte)) : Prop where
  ne_nil : labels ≠ []
  labelOk : ∀ label ∈ labels, LabelOk label
  wire_le : (wire labels).length ≤ 255

/-- A label is not empty. -/
theorem LabelOk.ne_nil {label : List Byte} (h : LabelOk label) : label ≠ [] :=
  List.length_pos_iff.1 h.length_pos

/-- A message with one more label. -/
theorem length_append_label (q label : List Byte) :
    (q ++ (label.length : Byte) :: label).length = q.length + 1 + label.length := by
  rw [List.length_append, List.length_cons]
  omega

/-- The root is one octet. -/
theorem wire_nil : wire [] = [0] := rfl

/-- A label is its length and its octets. -/
theorem wire_cons (label : List Byte) (labels : List (List Byte)) :
    wire (label :: labels) = (label.length : Byte) :: label ++ wire labels := by
  simp [wire]

/-- A label takes one octet more than it has. -/
theorem wire_length_cons (label : List Byte) (labels : List (List Byte)) :
    (wire (label :: labels)).length = 1 + label.length + (wire labels).length := by
  rw [wire_cons, List.length_append, List.length_cons]
  omega

/-- A name takes at least the root's octet. -/
theorem wire_length_pos (labels : List (List Byte)) : 0 < (wire labels).length := by
  rw [wire, List.length_append, List.length_singleton]
  omega

/-- One label is written as it is. -/
theorem dotted_singleton (label : List Byte) : dotted [label] = label := by
  simp [dotted, List.intercalate]

/-- Labels are written with a dot between them. -/
theorem dotted_cons_cons (label next : List Byte) (labels : List (List Byte)) :
    dotted (label :: next :: labels) = label ++ dot :: dotted (next :: labels) := by
  simp [dotted, List.intercalate]

/-- The labels after the first, each behind a dot. -/
theorem dotted_cons (label : List Byte) (labels : List (List Byte)) :
    dotted (label :: labels) = label ++ labels.flatMap (fun l => dot :: l) := by
  induction labels generalizing label with
  | nil => rw [dotted_singleton, List.flatMap_nil, List.append_nil]
  | cons next labels ih => rw [dotted_cons_cons, ih next, List.flatMap_cons, List.cons_append]

/-- The wire form is longer by the length of the first label and the end. -/
theorem length_wire {labels : List (List Byte)} (hne : labels ≠ []) :
    (wire labels).length = (dotted labels).length + 2 := by
  induction labels with
  | nil => exact absurd rfl hne
  | cons label labels ih =>
    cases labels with
    | nil =>
      rw [wire_length_cons, dotted_singleton]
      show 1 + label.length + 1 = _
      omega
    | cons next labels =>
      rw [wire_length_cons, ih (List.cons_ne_nil _ _), dotted_cons_cons, List.length_append,
        List.length_cons]
      omega

/-! ## Writing -/

/-- The first label of a string that goes on with a dot, or ends. -/
theorem firstLabel_append {label : List Byte} (h : dot ∉ label) (rest : List Byte) :
    firstLabel (label ++ dot :: rest) = label ∧ firstLabel label = label := by
  have hall : ∀ b ∈ label, decide (b ≠ dot) = true := by
    intro b hb
    refine decide_eq_true ?_
    rintro rfl
    exact h hb
  unfold firstLabel
  constructor
  · rw [List.takeWhile_append_of_pos hall, List.takeWhile_cons_of_neg (by simp), List.append_nil]
  · rw [← List.append_nil label, List.takeWhile_append_of_pos hall, List.takeWhile_nil]

/-- The end of a name in the query. -/
theorem putName_nil {q : List Byte} (h : q.length ≤ 255) : putName q [] = .ok (some (q ++ [0])) := by
  have hlt : q.length < queryCapacity := Nat.lt_of_le_of_lt h (by decide)
  rw [putName, if_pos rfl, (push_safe hlt 0).eq]
  rfl

/-- A label that is refused. -/
theorem putName_refuses {q p : List Byte} (hp : p ≠ [])
    (h : (firstLabel p).length = 0 ∨ 63 < (firstLabel p).length ∨
      255 < q.length + 1 + (firstLabel p).length) : putName q p = .ok none := by
  rw [putName, if_neg hp]
  exact dif_pos h

/-- A label that is written. -/
theorem putName_label {q p : List Byte} (hpos : 0 < (firstLabel p).length)
    (h63 : (firstLabel p).length ≤ 63) (h255 : q.length + 1 + (firstLabel p).length ≤ 255) :
    putName q p = putName (q ++ ((firstLabel p).length : Byte) :: firstLabel p)
      (skipDot (p.drop (firstLabel p).length)) := by
  have hp : p ≠ [] := by
    rintro rfl
    exact absurd hpos (Nat.lt_irrefl 0)
  have hroom : q.length + 1 + (firstLabel p).length ≤ queryCapacity :=
    Nat.le_trans h255 (by decide)
  have hpush := (push_safe (show q.length < queryCapacity by omega)
    ((firstLabel p).length : Byte)).eq
  have hlength : (q ++ [((firstLabel p).length : Byte)]).length + (firstLabel p).length ≤
      queryCapacity := by
    rw [List.length_append, List.length_singleton]
    exact hroom
  have hmany := (pushMany_safe hlength).eq
  rw [putName, if_neg hp]
  simp only
  rw [dif_neg (by omega), hpush, ok_bind, hmany, ok_bind, List.append_assoc,
    List.singleton_append]

/-- What is left of a spelled name behind its first label. -/
theorem skipDot_spelled {label : List Byte} (hlabel : LabelOk label) (labels : List (List Byte))
    {tail : List Byte} (htail : tail = [] ∨ tail = [dot]) :
    firstLabel (dotted (label :: labels) ++ tail) = label ∧
      skipDot ((dotted (label :: labels) ++ tail).drop label.length) =
        if labels = [] then [] else dotted labels ++ tail := by
  cases labels with
  | nil =>
    rw [dotted_singleton, if_pos rfl, List.drop_left]
    rcases htail with rfl | rfl
    · rw [List.append_nil]
      exact ⟨(firstLabel_append hlabel.dot_notMem []).2, rfl⟩
    · exact ⟨(firstLabel_append hlabel.dot_notMem []).1, rfl⟩
  | cons next labels =>
    rw [dotted_cons_cons, List.append_assoc, List.cons_append, List.drop_left,
      if_neg (List.cons_ne_nil next labels)]
    exact ⟨(firstLabel_append hlabel.dot_notMem _).1, skipDot_dot _⟩

/-- A spelled name is written when it ends at offset 256 of the query or before, and refused
otherwise. -/
theorem putName_spelled {labels : List (List Byte)} (hne : labels ≠ [])
    (hok : ∀ label ∈ labels, LabelOk label) {tail : List Byte} (htail : tail = [] ∨ tail = [dot])
    (q : List Byte) :
    putName q (dotted labels ++ tail) =
      .ok (if q.length + (wire labels).length ≤ 256 then some (q ++ wire labels) else none) := by
  induction labels generalizing q with
  | nil => exact absurd rfl hne
  | cons label labels ih =>
    have hlabel := hok label List.mem_cons_self
    obtain ⟨hfirst, hrest⟩ := skipDot_spelled hlabel labels htail
    have hpos := wire_length_pos labels
    have hwire := wire_length_cons label labels
    -- What the source compares with 255 is where the label would end in the query.
    by_cases h255 : q.length + 1 + label.length ≤ 255
    · rw [putName_label (by rw [hfirst]; exact hlabel.length_pos)
        (by rw [hfirst]; exact hlabel.length_le) (by rw [hfirst]; exact h255), hfirst, hrest]
      have hq := length_append_label q label
      have happend : q ++ wire (label :: labels) =
          q ++ (label.length : Byte) :: label ++ wire labels := by
        rw [wire_cons, List.append_assoc]
      -- The last label is followed by the root, any other by the labels that are left.
      by_cases hlast : labels = []
      · rw [if_pos hlast, putName_nil (by rw [hq]; exact h255), happend, hlast, wire_nil,
          if_pos]
        rw [wire_length_cons, wire_nil, List.length_singleton]
        omega
      · rw [if_neg hlast, ih hlast (fun l hl => hok l (List.mem_cons_of_mem label hl)), hq,
          happend, hwire]
        congr 1
        rw [← Nat.add_assoc, ← Nat.add_assoc]
    · rw [if_neg (by omega)]
      refine putName_refuses ?_ ?_
      · intro hnil
        rw [hnil] at hfirst
        exact hlabel.ne_nil hfirst.symm
      · rw [hfirst]
        omega

/-- A string is its first label, and a dot and more unless it ends there. -/
theorem firstLabel_split (s : List Byte) :
    s = firstLabel s ∨ ∃ rest, s = firstLabel s ++ dot :: rest := by
  induction s with
  | nil => exact Or.inl rfl
  | cons b s ih =>
    unfold firstLabel at ih ⊢
    by_cases hb : b = dot
    · rw [List.takeWhile_cons_of_neg (by simpa using hb), hb]
      exact Or.inr ⟨s, rfl⟩
    · rw [List.takeWhile_cons_of_pos (by simpa using hb)]
      rcases ih with h | ⟨rest, h⟩
      · exact Or.inl (congrArg (List.cons b) h)
      · exact Or.inr ⟨rest, congrArg (List.cons b) h⟩

/-- A first label of the right length is one. -/
theorem labelOk_firstLabel {s : List Byte} (hnul : 0 ∉ s) (hpos : (firstLabel s).length ≠ 0)
    (h63 : ¬63 < (firstLabel s).length) : LabelOk (firstLabel s) where
  length_pos := Nat.pos_of_ne_zero hpos
  length_le := Nat.le_of_not_lt h63
  dot_notMem := by
    intro h
    unfold firstLabel at h
    have hdot := List.mem_takeWhile_imp h
    simp at hdot
  nul_notMem := fun h => hnul ((List.takeWhile_sublist _).subset h)

/-- A string that is not empty spells a list of labels, or is refused. -/
theorem spells_or_refused (s : List Byte) (hs : s ≠ []) (hnul : 0 ∉ s) :
    (∃ labels, labels ≠ [] ∧ (∀ label ∈ labels, LabelOk label) ∧ Spells s labels) ∨
      ∀ q, putName q s = .ok none := by
  -- What is left behind the first dot is shorter.
  induction hlen : s.length using Nat.strongRecOn generalizing s with
  | _ n ih =>
    by_cases hbad : (firstLabel s).length = 0 ∨ 63 < (firstLabel s).length
    · exact Or.inr fun q => putName_refuses hs (hbad.imp_right Or.inl)
    · have hpos : (firstLabel s).length ≠ 0 := fun h => hbad (Or.inl h)
      have h63 : ¬63 < (firstLabel s).length := fun h => hbad (Or.inr h)
      have hlabel := labelOk_firstLabel hnul hpos h63
      have hone : ∀ label ∈ [firstLabel s], LabelOk label := by
        intro label hmem
        rw [List.mem_singleton.1 hmem]
        exact hlabel
      rcases firstLabel_split s with hends | ⟨rest, hrest⟩
      · refine Or.inl ⟨[firstLabel s], List.cons_ne_nil _ _, hone, Or.inl ?_⟩
        rw [dotted_singleton]
        exact hends
      · -- A dot at the end belongs to the spelling, and no label follows it.
        by_cases hnil : rest = []
        · refine Or.inl ⟨[firstLabel s], List.cons_ne_nil _ _, hone, Or.inr ?_⟩
          rw [dotted_singleton, ← hnil]
          exact hrest
        · have hsub : ∀ b ∈ rest, b ∈ s := by
            intro b hb
            rw [hrest]
            exact List.mem_append_right _ (List.mem_cons_of_mem dot hb)
          have hshort : rest.length < n := by
            rw [← hlen, hrest, List.length_append, List.length_cons]
            omega
          rcases ih rest.length hshort rest hnil (fun h => hnul (hsub 0 h)) rfl with
            ⟨labels, hne, hok, hspells⟩ | hrefused
          · refine Or.inl ⟨firstLabel s :: labels, List.cons_ne_nil _ _, ?_, ?_⟩
            · intro label hmem
              rcases List.mem_cons.1 hmem with rfl | hmem
              · exact hlabel
              · exact hok label hmem
            · obtain ⟨next, labels, rfl⟩ := List.exists_cons_of_ne_nil hne
              unfold Spells at hspells ⊢
              rw [dotted_cons_cons]
              refine hspells.imp (fun h => ?_) (fun h => ?_)
              · rw [← h]
                exact hrest
              · rw [List.append_assoc, List.cons_append, ← h]
                exact hrest
          · refine Or.inr fun q => ?_
            by_cases h255 : q.length + 1 + (firstLabel s).length ≤ 255
            · have hdrop : s.drop (firstLabel s).length = dot :: rest := by
                have := congrArg (List.drop (firstLabel s).length) hrest
                rwa [List.drop_left] at this
              rw [putName_label hlabel.length_pos hlabel.length_le h255, hdrop, skipDot_dot]
              exact hrefused _
            · exact putName_refuses hs (Or.inr (Or.inr (by omega)))

/-! ## Reading back -/

/-- The length octet of a label is neither the root's nor a pointer's. -/
theorem lengthOctet {n : ℕ} (hpos : 0 < n) (h63 : n ≤ 63) :
    (n : Byte).toNat = n ∧ (n : Byte) ≠ 0 ∧ ¬(n : Byte) &&& 0xC0 = 0xC0 := by
  have htoNat : (n : Byte).toNat = n := by
    show (BitVec.ofNat 8 n).toNat = n
    rw [BitVec.toNat_ofNat]
    omega
  have hbits : ∀ c : Byte, c.toNat ≤ 63 → ¬c &&& 0xC0 = 0xC0 := by decide
  refine ⟨htoNat, ?_, hbits _ (by omega)⟩
  intro hzero
  rw [hzero] at htoNat
  exact absurd htoNat (by show ¬0 = n; omega)

/-- A label is read when the buffer has room for a dot, the label and a NUL. -/
theorem getNameLoop_label {label : List Byte} (hpos : 0 < label.length) (h63 : label.length ≤ 63)
    (pre post : List Byte) (cap : ℕ) (jumped : Bool) (hops off : ℕ) (out : List Byte) :
    getNameLoop (pre ++ ((label.length : Byte) :: label ++ post)) cap pre.length jumped hops off
        out =
      if cap < out.length + label.length + 2 then .ok none
      else getNameLoop (pre ++ (label.length : Byte) :: label ++ post) cap
        (pre ++ (label.length : Byte) :: label).length jumped hops off
        ((if out ≠ [] then out ++ [dot] else out) ++ label) := by
  obtain ⟨htoNat, hne, hbits⟩ := lengthOctet hpos h63
  set m := pre ++ ((label.length : Byte) :: label ++ post) with hm
  have hlength : m.length = pre.length + 1 + label.length + post.length := by
    rw [hm, List.length_append, List.length_append, List.length_cons]
    omega
  have hread : readAt m pre.length = .ok (label.length : Byte) := by
    unfold readAt
    rw [hm, List.getElem?_append_right (Nat.le_refl _), Nat.sub_self]
    rfl
  have hdrop : (m.drop (pre.length + 1)).take label.length = label := by
    rw [hm, ← List.drop_drop, List.drop_left, List.cons_append, List.drop_succ_cons,
      List.drop_zero, List.take_left]
  have hmany : readMany m (pre.length + 1) label.length = .ok label := by
    rw [(readMany_safe (by omega)).eq, hdrop]
  rw [length_append_label, List.append_assoc, ← hm, getNameLoop, dif_neg (by omega), hread,
    ok_bind, dif_neg hne, if_neg hbits, htoNat]
  simp only
  -- The dot is counted for the first label too, which has none before it.
  by_cases hcap : cap < out.length + label.length + 2
  · rw [if_pos hcap, if_pos (Or.inr hcap)]
  · rw [if_neg hcap, if_neg (by omega), (pushWhen_safe (fun _ => by omega) dot).eq, ok_bind,
      hmany, ok_bind]
    set out' := if out ≠ [] then out ++ [dot] else out with hout'
    have hout'' : out'.length + label.length ≤ cap := by
      have hle : out'.length ≤ out.length + 1 := by
        rw [hout']
        split
        · exact Nat.le_of_eq List.length_append
        · exact Nat.le_succ _
      omega
    rw [(pushMany_safe hout'').eq, ok_bind]

/-- The end of a name that has a label. -/
theorem getNameLoop_root (pre post : List Byte) {cap : ℕ} (hops off : ℕ) {out : List Byte}
    (hne : out ≠ []) (hroom : out.length < cap) :
    getNameLoop (pre ++ 0 :: post) cap pre.length false hops off out =
      .ok (some (pre.length + 1, out)) := by
  have hread : readAt (pre ++ 0 :: post) pre.length = .ok (0 : Byte) := by
    unfold readAt
    rw [List.getElem?_append_right (Nat.le_refl _), Nat.sub_self]
    rfl
  have hlength : ¬(pre ++ 0 :: post).length ≤ pre.length := by
    rw [List.length_append, List.length_cons]
    omega
  have hwhen : pushWhen (out = []) cap out dot = .ok out := if_neg hne
  rw [getNameLoop, dif_neg hlength, hread, ok_bind, dif_pos rfl, hwhen, ok_bind,
    (push_safe hroom 0).eq]
  rfl

/-- The labels after the first are read back, each behind a dot. -/
theorem getNameLoop_wire {labels : List (List Byte)} (hok : ∀ label ∈ labels, LabelOk label)
    (pre post : List Byte) {cap : ℕ} (hops off : ℕ) {out : List Byte} (hne : out ≠ [])
    (hroom : (out ++ labels.flatMap (fun l => dot :: l)).length < cap) :
    getNameLoop (pre ++ (wire labels ++ post)) cap pre.length false hops off out =
      .ok (some (pre.length + (wire labels).length, out ++ labels.flatMap (fun l => dot :: l))) := by
  induction labels generalizing pre out with
  | nil =>
    rw [List.flatMap_nil, List.append_nil] at hroom ⊢
    exact getNameLoop_root pre post hops off hne hroom
  | cons label labels ih =>
    have hlabel := hok label List.mem_cons_self
    have hroom' := hroom
    rw [List.flatMap_cons, List.length_append, List.length_append, List.length_cons] at hroom'
    have hsplit : wire (label :: labels) ++ post =
        (label.length : Byte) :: label ++ (wire labels ++ post) := by
      rw [wire_cons, List.append_assoc]
    have hout : out ++ [dot] ++ label ++ labels.flatMap (fun l => dot :: l) =
        out ++ (label :: labels).flatMap (fun l => dot :: l) := by
      rw [List.flatMap_cons, List.append_assoc, List.append_assoc]
      rfl
    rw [hsplit, getNameLoop_label hlabel.length_pos hlabel.length_le, if_neg (by omega), if_pos hne,
      ih (fun l hl => hok l (List.mem_cons_of_mem label hl)) _ (by simp) (by rw [hout]; exact hroom),
      hout, length_append_label, wire_length_cons, Nat.add_assoc, Nat.add_assoc, Nat.add_assoc]

/-- A name is read back into a buffer with room for its dotted form and a NUL, and for one octet more
when it is a single label. -/
theorem getName_wire {labels : List (List Byte)} (hne : labels ≠ [])
    (hok : ∀ label ∈ labels, LabelOk label) (pre post : List Byte) {cap : ℕ}
    (hroom : (dotted labels).length < cap) :
    getName (pre ++ wire labels ++ post) pre.length cap =
      .ok (if labels.length = 1 ∧ cap ≤ (dotted labels).length + 1 then none
        else some (pre.length + (wire labels).length, dotted labels)) := by
  obtain ⟨label, labels, rfl⟩ := List.exists_cons_of_ne_nil hne
  have hlabel := hok label List.mem_cons_self
  have hdotted : (dotted (label :: labels)).length =
      label.length + (labels.flatMap (fun l => dot :: l)).length := by
    rw [dotted_cons, List.length_append]
  have hsplit : pre ++ wire (label :: labels) ++ post =
      pre ++ ((label.length : Byte) :: label ++ (wire labels ++ post)) := by
    rw [wire_cons, List.append_assoc, List.append_assoc]
  have hrest : labels.length ≠ 0 → 0 < (labels.flatMap (fun l => dot :: l)).length := by
    intro hlen
    obtain ⟨next, labels, rfl⟩ := List.exists_cons_of_length_pos (Nat.pos_of_ne_zero hlen)
    rw [List.flatMap_cons, List.length_append, List.length_cons]
    omega
  unfold getName
  rw [hsplit, getNameLoop_label hlabel.length_pos hlabel.length_le]
  simp only [ne_eq, not_true_eq_false, if_false, List.nil_append, List.length_nil, Nat.zero_add,
    List.length_cons]
  -- With a second label there is a dot to make room for, so only a single one can lack it.
  by_cases hsmall : cap < label.length + 2
  · have hlast : labels.length = 0 := by
      by_contra hlen
      have := hrest hlen
      omega
    rw [if_pos hsmall, if_pos ⟨by omega, by omega⟩]
  · have hfull : ¬(labels.length + 1 = 1 ∧ cap ≤ (dotted (label :: labels)).length + 1) := by
      rintro ⟨hlen, hle⟩
      have hnil := List.length_eq_zero_iff.1 (Nat.succ.inj hlen)
      rw [hdotted, hnil, List.flatMap_nil, List.length_nil] at hle
      omega
    rw [if_neg hsmall, if_neg hfull,
      getNameLoop_wire (fun l hl => hok l (List.mem_cons_of_mem label hl)) _ _ _ _ hlabel.ne_nil
        (by rw [List.length_append, ← hdotted]; exact hroom),
      length_append_label, ← dotted_cons, wire_length_cons, Nat.add_assoc, Nat.add_assoc, Nat.add_assoc]

/-! ## What is accepted -/

/-- The string given to `putName` for a query: a name for which there is room is written in its wire
form, and read back into any buffer with room for its dotted form and a NUL, whatever follows it;
what spells no name is refused. -/
def RoundTrips (q s : List Byte) (cap : ℕ) : Prop :=
  (∀ labels, IsName labels → Spells s labels →
    q.length + (wire labels).length ≤ queryCapacity → (dotted labels).length < cap →
    putName q s = .ok (some (q ++ wire labels)) ∧
      ∀ post, getName (q ++ wire labels ++ post) q.length cap =
        .ok (some (q.length + (wire labels).length, dotted labels))) ∧
  ((¬∃ labels, IsName labels ∧ Spells s labels) → putName q s = .ok none)

/-- The condition for that. A name ends at offset 256 of the query or before, and a single label has
a buffer with an octet to spare; a list of labels that is too long for a name ends behind that
offset. -/
def EndsInside (q s : List Byte) (cap : ℕ) : Prop :=
  ∀ labels, labels ≠ [] → (∀ label ∈ labels, LabelOk label) → Spells s labels →
    if (wire labels).length ≤ 255 then
      q.length + (wire labels).length ≤ queryCapacity → (dotted labels).length < cap →
        q.length + (wire labels).length ≤ 256 ∧
          (labels.length = 1 → (dotted labels).length + 1 < cap)
    else 256 < q.length + (wire labels).length

/-- What `putName` does with a string that spells a list of labels. -/
theorem putName_of_spells {s : List Byte} {labels : List (List Byte)} (hne : labels ≠ [])
    (hok : ∀ label ∈ labels, LabelOk label) (hspells : Spells s labels) (q : List Byte) :
    putName q s =
      .ok (if q.length + (wire labels).length ≤ 256 then some (q ++ wire labels) else none) := by
  rcases hspells with rfl | rfl
  · have h := putName_spelled hne hok (Or.inl rfl) q
    rwa [List.append_nil] at h
  · exact putName_spelled hne hok (Or.inr rfl) q

/-- A string that spells a list of labels too long for a name spells no name. -/
theorem not_isName_of_long {s : List Byte} {labels : List (List Byte)} (hne : labels ≠ [])
    (hok : ∀ label ∈ labels, LabelOk label) (hspells : Spells s labels)
    (hlong : 255 < (wire labels).length) : ¬∃ labels, IsName labels ∧ Spells s labels := by
  rintro ⟨labels', hname, hspells'⟩
  -- Both are what `putName` would write at offset zero.
  have h := putName_of_spells hne hok hspells []
  rw [putName_of_spells hname.ne_nil hname.labelOk hspells' [], List.length_nil, Nat.zero_add,
    Nat.zero_add, if_pos (Nat.le_succ_of_le hname.wire_le)] at h
  split at h
  · have hwire : wire labels' = wire labels := Option.some.inj (Except.ok.inj h)
    have hle := hname.wire_le
    rw [hwire] at hle
    exact absurd hle (Nat.not_le_of_lt hlong)
  · exact nomatch Except.ok.inj h

/-- The names that `putName` writes and `getName` reads back are those of the format exactly when no
name ends behind offset 256 of the query, none that is too long ends before, and a single label's
buffer has an octet to spare. -/
theorem putName_getName_iff (q : List Byte) {s : List Byte} (hs : s ≠ []) (hnul : 0 ∉ s)
    (cap : ℕ) : RoundTrips q s cap ↔ EndsInside q s cap := by
  constructor
  · rintro ⟨hnames, hothers⟩ labels hne hok hspells
    have hput := putName_of_spells hne hok hspells q
    split
    · next hwire =>
      intro hroom hcap
      obtain ⟨hsome, hread⟩ := hnames labels ⟨hne, hok, hwire⟩ hspells hroom hcap
      have hends : q.length + (wire labels).length ≤ 256 := by
        by_contra hnot
        rw [hsome, if_neg hnot] at hput
        exact nomatch Except.ok.inj hput
      refine ⟨hends, ?_⟩
      intro hone
      by_contra hsmall
      have hback := hread []
      rw [getName_wire hne hok q [] hcap, if_pos ⟨hone, Nat.le_of_not_lt hsmall⟩] at hback
      exact nomatch Except.ok.inj hback
    · next hlong =>
      have hnone := hothers (not_isName_of_long hne hok hspells (Nat.lt_of_not_le hlong))
      by_contra hends
      rw [hnone, if_pos (Nat.le_of_not_lt hends)] at hput
      exact nomatch Except.ok.inj hput
  · intro hcond
    constructor
    · intro labels hname hspells hroom hcap
      have h := hcond labels hname.ne_nil hname.labelOk hspells
      rw [if_pos hname.wire_le] at h
      obtain ⟨hends, hone⟩ := h hroom hcap
      constructor
      · rw [putName_of_spells hname.ne_nil hname.labelOk hspells q, if_pos hends]
      · intro post
        rw [getName_wire hname.ne_nil hname.labelOk q post hcap, if_neg]
        rintro ⟨hlen, hle⟩
        exact absurd (hone hlen) (Nat.not_lt_of_le hle)
    · intro hnot
      -- The string spells a list of labels that is too long for a name, or no list at all.
      rcases spells_or_refused s hs hnul with ⟨labels, hne, hok, hspells⟩ | hrefused
      · have h := hcond labels hne hok hspells
        rw [if_neg fun hwire => hnot ⟨labels, ⟨hne, hok, hwire⟩, hspells⟩] at h
        rw [putName_of_spells hne hok hspells q, if_neg (Nat.not_le_of_lt h)]
      · exact hrefused q

/-- A label of `n` letters. -/
def letters (n : ℕ) : List Byte := List.replicate n 0x61

/-- `aa` at the start of a query is written and read back. -/
theorem putName_getName_two : RoundTrips (List.replicate 12 0) (letters 2) 512 := by
  refine (putName_getName_iff (List.replicate 12 0) (by decide) (by decide) 512).2 ?_
  intro labels hne hok hspells
  -- Whatever it spells takes four octets at most.
  have hlen : (dotted labels).length ≤ 2 := by
    rcases hspells with h | h
    · rw [← h]
      decide
    · have hletters := congrArg List.length h
      rw [List.length_append, letters, List.length_replicate] at hletters
      omega
  have hwire := length_wire hne
  rw [if_pos (by omega), List.length_replicate]
  unfold queryCapacity
  omega

/-- A label of letters. -/
theorem labelOk_letters {n : ℕ} (hpos : 0 < n) (h63 : n ≤ 63) : LabelOk (letters n) where
  length_pos := by rw [letters, List.length_replicate]; exact hpos
  length_le := by rw [letters, List.length_replicate]; exact h63
  dot_notMem := fun h => absurd (List.eq_of_mem_replicate h) (by decide)
  nul_notMem := fun h => absurd (List.eq_of_mem_replicate h) (by decide)

/-- A name of 246 octets: three labels of 63 and one of 52. -/
def longName : List (List Byte) := [letters 63, letters 63, letters 63, letters 52]

/-- A name of 246 octets is refused in a query, behind the 12 octets of its header. -/
theorem longName_refused :
    IsName longName ∧ putName (List.replicate 12 0) (dotted longName) = .ok none ∧
      ¬RoundTrips (List.replicate 12 0) (dotted longName) 512 := by
  have hok : ∀ label ∈ longName, LabelOk label := by
    intro label hmem
    rcases List.mem_cons.1 hmem with rfl | hmem
    · exact labelOk_letters (by decide) (by decide)
    rcases List.mem_cons.1 hmem with rfl | hmem
    · exact labelOk_letters (by decide) (by decide)
    rcases List.mem_cons.1 hmem with rfl | hmem
    · exact labelOk_letters (by decide) (by decide)
    · rw [List.mem_singleton.1 hmem]
      exact labelOk_letters (by decide) (by decide)
  have hname : IsName longName := ⟨List.cons_ne_nil _ _, hok, by decide +kernel⟩
  have hnone : putName (List.replicate 12 0) (dotted longName) = .ok none := by
    rw [putName_of_spells hname.ne_nil hok (Or.inl rfl), if_neg (by decide +kernel)]
  refine ⟨hname, hnone, ?_⟩
  rintro ⟨hnames, -⟩
  have h := (hnames longName hname (Or.inl rfl) (by decide +kernel) (by decide +kernel)).1
  rw [hnone] at h
  exact nomatch Except.ok.inj h

end IUserApps.NsLookup
