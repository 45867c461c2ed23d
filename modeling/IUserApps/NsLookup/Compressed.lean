import IUserApps.NsLookup.RoundTrip
import IUserApps.NsLookup.Walk

/-!
# Compressed names

`Spelled` says what labels the octets of a message form from a place on, through at most so many
pointers, and where the name ends: behind its zero octet, or behind the first pointer. A length
octet has both top bits clear (`IsLength`). `getName` takes every octet for one that is no pointer's
(`TakenForLength`), so that the two reserved types are labels of 64 to 191 octets to it
(`getName_iff`). `readsName_iff` is the exact condition under which that does not show.
-/

namespace IUserApps.NsLookup

open Checked

/-- Where a pointer of two octets leads to. -/
def pointerTarget (c b : Byte) : ℕ := ((c &&& 0x3F).toNat <<< 8) ||| b.toNat

/-- The octet is the length of a label. -/
def IsLength (c : Byte) : Prop := c &&& 0xC0 = 0

/-- The octets that `getName` takes for the length of a label. -/
def TakenForLength (c : Byte) : Prop := ¬c &&& 0xC0 = 0xC0

instance : DecidablePred TakenForLength := fun _ => inferInstanceAs (Decidable (¬_))

/-- From a place in a message the octets form these labels, through at most `hops` pointers, and the
name ends at this offset. `P` tells the length octets. -/
inductive Spelled (P : Byte → Prop) (m : List Byte) : ℕ → ℕ → List (List Byte) → ℕ → Prop
  | root {pos hops : ℕ} : m[pos]? = some 0 → Spelled P m pos hops [] (pos + 1)
  | pointer {pos hops behind : ℕ} {c b : Byte} {labels : List (List Byte)} :
    m[pos]? = some c → c &&& 0xC0 = 0xC0 → m[pos + 1]? = some b →
    Spelled P m (pointerTarget c b) hops labels behind → Spelled P m pos (hops + 1) labels (pos + 2)
  | label {pos hops behind : ℕ} {c : Byte} {labels : List (List Byte)} :
    m[pos]? = some c → c ≠ 0 → P c → pos + 1 + c.toNat ≤ m.length →
    Spelled P m (pos + 1 + c.toNat) hops labels behind →
    Spelled P m pos hops ((m.drop (pos + 1)).take c.toNat :: labels) behind

/-- The labels joined by dots, or a dot for the root. -/
def joined (labels : List (List Byte)) : List Byte :=
  if labels = [] then [dot] else dotted labels

/-- A name and its NUL fit a buffer of the callers. -/
def FitsName (labels : List (List Byte)) : Prop := (joined labels).length + 1 ≤ nameCapacity

/-- What is read of a name: it is read exactly when the octets form labels and it fits, and then it
is those labels, and the offset is where the name ends. -/
def ReadsName (m : List Byte) (off : ℕ) : Prop :=
  ∃ result, getName m off nameCapacity = .ok result ∧ ∀ behind name, result = some (behind, name) ↔
    ∃ labels, Spelled IsLength m off 32 labels behind ∧ FitsName labels ∧ name = joined labels

variable {P : Byte → Prop} {m : List Byte} {pos hops : ℕ} {labels : List (List Byte)} {behind : ℕ}

/-- What is spelled goes by the octet it starts with. -/
theorem spelled_iff {c : Byte} (hc : m[pos]? = some c) : Spelled P m pos hops labels behind ↔
    (c = 0 ∧ labels = [] ∧ behind = pos + 1) ∨
    (c &&& 0xC0 = 0xC0 ∧ ∃ b h e, m[pos + 1]? = some b ∧ hops = h + 1 ∧
      Spelled P m (pointerTarget c b) h labels e ∧ behind = pos + 2) ∨
    (c ≠ 0 ∧ P c ∧ pos + 1 + c.toNat ≤ m.length ∧ ∃ rest,
      labels = (m.drop (pos + 1)).take c.toNat :: rest ∧
      Spelled P m (pos + 1 + c.toNat) hops rest behind) := by
  constructor
  · intro h
    cases h with
    | root hc' =>
      obtain rfl := Option.some.inj (hc.symm.trans hc')
      exact Or.inl ⟨rfl, rfl, rfl⟩
    | pointer hc' hbits hb hrest =>
      obtain rfl := Option.some.inj (hc.symm.trans hc')
      exact Or.inr (Or.inl ⟨hbits, _, _, _, hb, rfl, hrest, rfl⟩)
    | label hc' hne hP hlen hrest =>
      obtain rfl := Option.some.inj (hc.symm.trans hc')
      exact Or.inr (Or.inr ⟨hne, hP, hlen, _, rfl, hrest⟩)
  · rintro (⟨rfl, rfl, rfl⟩ | ⟨hbits, b, h, e, hb, rfl, hrest, rfl⟩ |
      ⟨hne, hP, hlen, rest, rfl, hrest⟩)
    · exact .root hc
    · exact .pointer hc hbits hb hrest
    · exact .label hc hne hP hlen hrest

/-- Nothing is spelled from beyond the message. -/
theorem not_spelled_of_le (h : m.length ≤ pos) : ¬Spelled P m pos hops labels behind := by
  have hnone : m[pos]? = none := List.getElem?_eq_none h
  intro hspelled
  cases hspelled with
  | root hc => simp [hnone] at hc
  | pointer hc => simp [hnone] at hc
  | label hc => simp [hnone] at hc

/-- The kinds of an octet: the bits of its top. -/
theorem isLength_iff (c : Byte) : IsLength c ↔ TakenForLength c ∧ c.toNat ≤ 63 := by
  have h : ∀ c : Byte, c &&& 0xC0 = 0 ↔ ¬c &&& 0xC0 = 0xC0 ∧ c.toNat ≤ 63 := by decide +kernel
  exact h c

/-- What is taken for a length is at most 191. -/
theorem toNat_of_takenForLength {c : Byte} (h : TakenForLength c) : c.toNat ≤ 191 := by
  have hall : ∀ c : Byte, ¬c &&& 0xC0 = 0xC0 → c.toNat ≤ 191 := by decide +kernel
  exact hall c h

/-- A label takes the octets that its length says. -/
theorem length_label {c : Byte} (h : pos + 1 + c.toNat ≤ m.length) :
    ((m.drop (pos + 1)).take c.toNat).length = c.toNat := by
  rw [List.length_take, List.length_drop]
  omega

/-- A label of a length other than 0 is not empty. -/
theorem label_ne_nil {c : Byte} (hne : c ≠ 0) (h : pos + 1 + c.toNat ≤ m.length) :
    (m.drop (pos + 1)).take c.toNat ≠ [] := by
  intro hnil
  have hlength := length_label h
  rw [hnil] at hlength
  exact hne (BitVec.eq_of_toNat_eq hlength.symm)

/-- Labels by the book are the labels that `getName` sees, of at most 63 octets each. -/
theorem spelled_isLength_iff : Spelled IsLength m pos hops labels behind ↔
    Spelled TakenForLength m pos hops labels behind ∧ ∀ label ∈ labels, label.length ≤ 63 := by
  constructor
  · intro h
    induction h with
    | root hc => exact ⟨.root hc, fun l hl => absurd hl List.not_mem_nil⟩
    | pointer hc hbits hb _ ih => exact ⟨.pointer hc hbits hb ih.1, ih.2⟩
    | label hc hne hP hlen _ ih =>
      obtain ⟨htaken, h63⟩ := (isLength_iff _).1 hP
      refine ⟨.label hc hne htaken hlen ih.1, ?_⟩
      intro l hl
      rcases List.mem_cons.1 hl with rfl | hl
      · rw [length_label hlen]
        exact h63
      · exact ih.2 l hl
  · rintro ⟨h, hlabels⟩
    induction h with
    | root hc => exact .root hc
    | pointer hc hbits hb _ ih => exact .pointer hc hbits hb (ih hlabels)
    | label hc hne hP hlen _ ih =>
      have h63 := hlabels _ List.mem_cons_self
      rw [length_label hlen] at h63
      exact .label hc hne ((isLength_iff _).2 ⟨hP, h63⟩) hlen
        (ih fun l hl => hlabels l (List.mem_cons_of_mem _ hl))

/-- The labels from a place on are determined. -/
theorem Spelled.unique {labels' : List (List Byte)} {e' : ℕ}
    (h : Spelled TakenForLength m pos hops labels behind)
    (h' : Spelled TakenForLength m pos hops labels' e') : labels = labels' := by
  have hzero : ¬(0 : Byte) &&& 0xC0 = 0xC0 := by decide
  induction h generalizing labels' e' with
  | root hc =>
    rcases (spelled_iff hc).1 h' with ⟨-, rfl, -⟩ | ⟨hbits, -⟩ | ⟨hne, -⟩
    · rfl
    · exact absurd hbits hzero
    · exact absurd rfl hne
  | pointer hc hbits hb _ ih =>
    rcases (spelled_iff hc).1 h' with ⟨rfl, -⟩ | ⟨-, b, k, e, hb', hk, hrest, -⟩ | ⟨-, hP, -⟩
    · exact absurd hbits hzero
    · obtain rfl := Option.some.inj (hb.symm.trans hb')
      obtain rfl := Nat.succ.inj hk
      exact ih hrest
    · exact absurd hbits hP
  | label hc hne hP hlen _ ih =>
    rcases (spelled_iff hc).1 h' with ⟨rfl, -⟩ | ⟨hbits, -⟩ | ⟨-, -, -, rest, rfl, hrest⟩
    · exact absurd rfl hne
    · exact absurd hbits hP
    · rw [ih hrest]

/-! ## What is read -/

/-- What has been written of a name and the labels that follow, joined. -/
def joinFrom (out : List Byte) (labels : List (List Byte)) : List Byte :=
  if out = [] then joined labels else out ++ labels.flatMap (fun l => dot :: l)

/-- What has been written with one more label. -/
def withLabel (out label : List Byte) : List Byte :=
  (if out ≠ [] then out ++ [dot] else out) ++ label

/-- The loop of `getName` comes to this result: the labels that the octets form from its place on,
behind what has been written, when all of it fits. -/
def Reads (m : List Byte) (pos : ℕ) (jumped : Bool) (hops off : ℕ) (out : List Byte) (behind : ℕ)
    (name : List Byte) : Prop :=
  ∃ labels e, Spelled TakenForLength m pos (32 - hops) labels e ∧
    (joinFrom out labels).length + 1 ≤ nameCapacity ∧ name = joinFrom out labels ∧
    behind = if jumped then off else e

variable {jumped : Bool} {off : ℕ} {out name : List Byte} {c : Byte}

/-- The first label is written, then the others behind it. -/
theorem joinFrom_cons {label : List Byte} (h : label ≠ []) :
    joinFrom out (label :: labels) = joinFrom (withLabel out label) labels := by
  have hne : withLabel out label ≠ [] := by simp [withLabel, h]
  unfold joinFrom
  rw [if_neg hne]
  by_cases hout : out = []
  · simp [hout, joined, withLabel, dotted_cons]
  · simp [hout, withLabel]

/-- With a label the name is at least as long as what has been written and it. -/
theorem length_joinFrom_cons {label : List Byte} (h : label ≠ []) :
    (withLabel out label).length ≤ (joinFrom out (label :: labels)).length := by
  have hne : withLabel out label ≠ [] := by simp [withLabel, h]
  rw [joinFrom_cons h, joinFrom, if_neg hne, List.length_append]
  omega

/-- A label takes its own length, and a dot before it unless it is the first. -/
theorem length_withLabel (out label : List Byte) :
    (withLabel out label).length = (if out = [] then 0 else out.length + 1) + label.length := by
  by_cases hout : out = []
  · simp [withLabel, hout]
  · simp only [withLabel, hout, ne_eq, not_false_eq_true, if_true, if_false, List.length_append,
      List.length_singleton]

/-- The root alone is written as a dot. -/
theorem joinFrom_nil (out : List Byte) : joinFrom out [] = if out = [] then [dot] else out := by
  simp [joinFrom, joined]

/-- The zero octet ends the name. -/
theorem reads_root (hc : m[pos]? = some 0) (hout : out.length < nameCapacity) :
    Reads m pos jumped hops off out behind name ↔
      name = (if out = [] then [dot] else out) ∧ behind = if jumped then off else pos + 1 := by
  have hzero : ¬(0 : Byte) &&& 0xC0 = 0xC0 := by decide
  have hfits : (joinFrom out []).length + 1 ≤ nameCapacity := by
    rw [joinFrom_nil]
    split
    · decide
    · exact hout
  constructor
  · rintro ⟨labels, e, hspelled, -, rfl, rfl⟩
    rcases (spelled_iff hc).1 hspelled with ⟨-, rfl, rfl⟩ | ⟨hbits, -⟩ | ⟨hne, -⟩
    · exact ⟨joinFrom_nil out, rfl⟩
    · exact absurd hbits hzero
    · exact absurd rfl hne
  · rintro ⟨rfl, rfl⟩
    exact ⟨[], pos + 1, .root hc, hfits, (joinFrom_nil out).symm, rfl⟩

/-- A pointer leads on when it is no more than the 32nd. -/
theorem reads_pointer (hc : m[pos]? = some c) (hbits : c &&& 0xC0 = 0xC0) :
    Reads m pos jumped hops off out behind name ↔ ∃ b, m[pos + 1]? = some b ∧ hops + 1 ≤ 32 ∧
      Reads m (pointerTarget c b) true (hops + 1) (if jumped then off else pos + 2) out behind
        name := by
  constructor
  · rintro ⟨labels, e, hspelled, hfits, hname, rfl⟩
    rcases (spelled_iff hc).1 hspelled with ⟨rfl, -⟩ | ⟨-, b, k, e', hb, hk, hrest, rfl⟩ | ⟨-, hP, -⟩
    · exact absurd hbits (by decide)
    · obtain rfl : k = 32 - (hops + 1) := by omega
      exact ⟨b, hb, by omega, labels, e', hrest, hfits, hname, rfl⟩
    · exact absurd hbits hP
  · rintro ⟨b, hb, hhops, labels, e, hspelled, hfits, hname, hend⟩
    have hk : 32 - hops = 32 - (hops + 1) + 1 := by omega
    refine ⟨labels, pos + 2, ?_, hfits, hname, hend⟩
    rw [hk]
    exact .pointer hc hbits hb hspelled

/-- Another octet is taken for the length of a label. -/
theorem reads_label (hc : m[pos]? = some c) (hne : c ≠ 0) (hP : TakenForLength c) :
    Reads m pos jumped hops off out behind name ↔ pos + 1 + c.toNat ≤ m.length ∧
      Reads m (pos + 1 + c.toNat) jumped hops off
        (withLabel out ((m.drop (pos + 1)).take c.toNat)) behind name := by
  constructor
  · rintro ⟨labels, e, hspelled, hfits, hname, hend⟩
    rcases (spelled_iff hc).1 hspelled with ⟨rfl, -⟩ | ⟨hbits, -⟩ | ⟨-, -, hlen, rest, rfl, hrest⟩
    · exact absurd rfl hne
    · exact absurd hbits hP
    · rw [joinFrom_cons (label_ne_nil hne hlen)] at hfits hname
      exact ⟨hlen, rest, e, hrest, hfits, hname, hend⟩
  · rintro ⟨hlen, labels, e, hspelled, hfits, hname, hend⟩
    refine ⟨_, e, .label hc hne hP hlen hspelled, ?_⟩
    rw [joinFrom_cons (label_ne_nil hne hlen)]
    exact ⟨hfits, hname, hend⟩

/-- Nothing is read from a label that does not fit. -/
theorem not_reads_of_full (hc : m[pos]? = some c) (hne : c ≠ 0) (hP : TakenForLength c)
    (hfull : nameCapacity < out.length + c.toNat + 2) :
    ¬Reads m pos jumped hops off out behind name := by
  rintro ⟨labels, e, hspelled, hfits, -⟩
  rcases (spelled_iff hc).1 hspelled with ⟨rfl, -⟩ | ⟨hbits, -⟩ | ⟨-, -, hlen, rest, rfl, -⟩
  · exact absurd rfl hne
  · exact absurd hbits hP
  · have hlength := length_label hlen
    have hle : _ ≤ (joinFrom out (_ :: rest)).length := length_joinFrom_cons (label_ne_nil hne hlen)
    rw [length_withLabel, hlength] at hle
    -- A first label has at most 191 octets, so the octet counted for its dot does no harm.
    have h191 := toNat_of_takenForLength hP
    have hcap : nameCapacity = 512 := rfl
    split at hle
    · next hout =>
      rw [hout, List.length_nil] at hfull
      omega
    · omega

/-- The loop of `getName` ends with what there is to read. -/
theorem getNameLoop_reads (m : List Byte) (pos : ℕ) (jumped : Bool) {hops : ℕ} (off : ℕ)
    {out : List Byte} (hhops : hops ≤ 32) (hout : out.length < nameCapacity) :
    ∃ result, getNameLoop m nameCapacity pos jumped hops off out = .ok result ∧
      ∀ behind name, result = some (behind, name) ↔ Reads m pos jumped hops off out behind name := by
  have hno : ∀ {pos jumped hops off out},
      (∀ behind name, ¬Reads m pos jumped hops off out behind name) →
      ∀ behind name, none = some (behind, name) ↔ Reads m pos jumped hops off out behind name :=
    fun h behind name => iff_of_false (Option.some_ne_none _).symm (h behind name)
  -- By induction on the loop: outside the message, at the end, at a pointer, at a label.
  induction pos, jumped, hops, off, out using getNameLoop.induct m nameCapacity with
  | case1 pos jumped hops off out hpos =>
    rw [getNameLoop, dif_pos hpos]
    refine ⟨none, rfl, hno fun behind name hreads => ?_⟩
    obtain ⟨_, _, hspelled, _⟩ := hreads
    exact not_spelled_of_le hpos hspelled
  | case2 pos jumped hops off out hpos ihjump ihlabel =>
    obtain ⟨c, hread, hc⟩ := readAt_safe (Nat.lt_of_not_le hpos)
    rw [getNameLoop, dif_neg hpos, hread, ok_bind]
    by_cases hzero : c = 0
    · -- The end: a dot for the root, then the NUL.
      obtain rfl := hzero
      have hname : (if out = [] then out ++ [dot] else out) = if out = [] then [dot] else out := by
        split
        · next h => rw [h, List.nil_append]
        · rfl
      have hlt : (if out = [] then [dot] else out).length < nameCapacity := by
        split
        · decide
        · exact hout
      rw [dif_pos rfl, (pushWhen_safe (fun _ => hout) dot).eq, ok_bind, hname, (push_safe hlt 0).eq,
        ok_bind]
      refine ⟨_, rfl, fun behind name => ?_⟩
      rw [reads_root hc hout, Option.some.injEq, Prod.mk.injEq]
      exact ⟨fun h => ⟨h.2.symm, h.1.symm⟩, fun h => ⟨h.2.symm, h.1.symm⟩⟩
    · rw [dif_neg hzero]
      by_cases hbits : c &&& 0xC0 = 0xC0
      · -- A pointer.
        rw [if_pos hbits]
        -- A pointer is followed unless its second byte is missing or it is one too many.
        by_cases hstop : m.length ≤ pos + 1 ∨ 32 < hops + 1
        · rw [dif_pos hstop]
          refine ⟨none, rfl, hno fun behind name hreads => ?_⟩
          obtain ⟨b, hb, hle, -⟩ := (reads_pointer hc hbits).1 hreads
          have hlt := (List.getElem?_eq_some_iff.1 hb).1
          omega
        · obtain ⟨b, hread', hb⟩ := readAt_safe (show pos + 1 < m.length by omega)
          rw [dif_neg hstop, hread', ok_bind]
          obtain ⟨result, hresult, hiff⟩ := ihjump c hstop b (by omega) hout
          refine ⟨result, hresult, fun behind name => (hiff behind name).trans ?_⟩
          rw [reads_pointer hc hbits]
          constructor
          · intro hreads
            exact ⟨b, hb, by omega, hreads⟩
          · rintro ⟨b', hb', -, hreads⟩
            obtain rfl := Option.some.inj (hb.symm.trans hb')
            exact hreads
      · -- A label.
        rw [if_neg hbits]
        simp only
        by_cases hstop : m.length < pos + 1 + c.toNat ∨ nameCapacity < out.length + c.toNat + 2
        · -- Neither a label that runs out of the message nor one that is too long is spelled.
          rw [if_pos hstop]
          refine ⟨none, rfl, hno fun behind name hreads => ?_⟩
          rcases hstop with hlong | hfull
          · exact absurd ((reads_label hc hzero hbits).1 hreads).1 (Nat.not_le_of_lt hlong)
          · exact not_reads_of_full hc hzero hbits hfull hreads
        · have hlen : pos + 1 + c.toNat ≤ m.length := by omega
          have hlength := length_withLabel out ((m.drop (pos + 1)).take c.toNat)
          rw [length_label hlen] at hlength
          have hroom : (withLabel out ((m.drop (pos + 1)).take c.toNat)).length < nameCapacity := by
            split at hlength <;> omega
          have hpush := hroom
          rw [withLabel, List.length_append] at hpush
          rw [if_neg hstop, (pushWhen_safe (fun _ => by omega) dot).eq, ok_bind,
            (readMany_safe hlen).eq, ok_bind, (pushMany_safe (Nat.le_of_lt hpush)).eq, ok_bind]
          obtain ⟨result, hresult, hiff⟩ := ihlabel c hstop
            (withLabel out ((m.drop (pos + 1)).take c.toNat)) hhops hroom
          refine ⟨result, hresult, fun behind name => (hiff behind name).trans ?_⟩
          rw [reads_label hc hzero hbits]
          exact (and_iff_right hlen).symm

/-- `getName` ends, and reads the name that the octets form when each that is no pointer's is taken
for a length. -/
theorem getName_iff (m : List Byte) (off : ℕ) :
    ∃ result, getName m off nameCapacity = .ok result ∧
      ∀ behind name, result = some (behind, name) ↔ ∃ labels,
        Spelled TakenForLength m off 32 labels behind ∧ FitsName labels ∧ name = joined labels := by
  obtain ⟨result, hresult, hiff⟩ :=
    getNameLoop_reads m off false off (Nat.zero_le 32) (show [].length < nameCapacity by decide)
  refine ⟨result, hresult, fun behind name => (hiff behind name).trans ?_⟩
  constructor
  · rintro ⟨labels, e, hspelled, hfits, hname, rfl⟩
    exact ⟨labels, hspelled, hfits, hname⟩
  · rintro ⟨labels, hspelled, hfits, hname⟩
    exact ⟨labels, behind, hspelled, hfits, hname, rfl⟩

/-- A name is read exactly as the format has it when no label that is seen from the offset on and
fits has more than 63 octets. -/
theorem readsName_iff (m : List Byte) (off : ℕ) : ReadsName m off ↔
    ∀ labels behind, Spelled TakenForLength m off 32 labels behind → FitsName labels →
      ∀ label ∈ labels, label.length ≤ 63 := by
  obtain ⟨result, hresult, hiff⟩ := getName_iff m off
  constructor
  · rintro ⟨result', hresult', hstrict⟩ labels behind hspelled hfits
    obtain rfl := Except.ok.inj (hresult.symm.trans hresult')
    have hsome := (hiff behind (joined labels)).2 ⟨labels, hspelled, hfits, rfl⟩
    obtain ⟨labels', hspelled', -, -⟩ := (hstrict behind (joined labels)).1 hsome
    obtain ⟨htaken, h63⟩ := spelled_isLength_iff.1 hspelled'
    rw [hspelled.unique htaken]
    exact h63
  · intro h63
    refine ⟨result, hresult, fun behind name => (hiff behind name).trans ?_⟩
    constructor
    · rintro ⟨labels, hspelled, hfits, hname⟩
      have h := h63 labels behind hspelled hfits
      exact ⟨labels, spelled_isLength_iff.2 ⟨hspelled, h⟩, hfits, hname⟩
    · rintro ⟨labels, hspelled, hfits, hname⟩
      exact ⟨labels, (spelled_isLength_iff.1 hspelled).1, hfits, hname⟩

/-- A label whose length octet is of a reserved type. -/
def reservedLabel : List Byte := 0x40 :: letters 64 ++ [0]

/-- An octet of a reserved type and 64 letters behind it are read as a name. -/
theorem reservedLabel_read : getName reservedLabel 0 nameCapacity = .ok (some (66, letters 64)) ∧
    ¬ReadsName reservedLabel 0 := by
  have hspelled : Spelled TakenForLength reservedLabel 0 32 [letters 64] 66 :=
    .label (c := 0x40) rfl (by decide) (by decide) (by decide) (.root (by decide))
  obtain ⟨result, hresult, hiff⟩ := getName_iff reservedLabel 0
  have hsome := (hiff 66 (letters 64)).2
    ⟨[letters 64], hspelled, by unfold FitsName; decide, (dotted_singleton (letters 64)).symm⟩
  rw [hsome] at hresult
  refine ⟨hresult, ?_⟩
  rintro ⟨result', hresult', hstrict⟩
  obtain rfl := Except.ok.inj (hresult.symm.trans hresult')
  obtain ⟨labels, hlabels, -⟩ := (hstrict 66 (letters 64)).1 rfl
  rcases (spelled_iff (c := 0x40) rfl).1 hlabels with ⟨h, -⟩ | ⟨h, -⟩ | ⟨-, h, -⟩
  · exact absurd h (by decide)
  · exact absurd h (by decide)
  · exact absurd h (by unfold IsLength; decide)

end IUserApps.NsLookup
