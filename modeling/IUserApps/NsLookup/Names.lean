import IUserApps.Checked

/-!
# Domain names in DNS messages

`put_name` and `get_name` of `nslookup.c`. A name is written as its labels, each after its length,
and a zero; it is read back with dots between the labels, and may go on elsewhere in the message by a
pointer, 32 times at most. A string is the list of its characters, of which none is NUL, and an
`out` parameter's string what is written before its NUL.

`put_name` compares where a label would end in the query with 255, which bounds a name, not a
message. With a query's 12 octets before it a name of more than 244 octets is refused
(`putName_getName_iff`).

The offsets of a message of at most 65535 octets are far from the end of an `int`.
-/

namespace IUserApps.NsLookup

open Checked

/-- `'.'`. -/
def dot : Byte := 0x2E

/-- The size of the query buffer. -/
def queryCapacity : ℕ := 512

/-- The string from behind a dot. -/
def skipDot : List Byte → List Byte
  | [] => []
  | b :: s => if b = dot then s else b :: s

/-- A dot is skipped. -/
theorem skipDot_dot (s : List Byte) : skipDot (dot :: s) = s := by
  show (if dot = dot then s else dot :: s) = s
  exact if_pos rfl

/-- Skipping a dot makes nothing longer. -/
theorem skipDot_length_le (s : List Byte) : (skipDot s).length ≤ s.length := by
  cases s with
  | nil => exact Nat.le_refl 0
  | cons b s =>
    show (if b = dot then s else b :: s).length ≤ s.length + 1
    split
    · exact Nat.le_succ s.length
    · exact Nat.le_refl _

/-- The label that a string starts with, up to the first dot. -/
def firstLabel (s : List Byte) : List Byte := s.takeWhile (fun b => b ≠ dot)

/-- Appends a name to a query as labels; `none` for the source's `-1`. -/
def putName (q : List Byte) (p : List Byte) : Access (Option (List Byte)) :=
  if p = [] then do
    let q ← push queryCapacity q 0
    .ok (some q)
  else
    let label := firstLabel p
    if _h : label.length = 0 ∨ 63 < label.length ∨ 255 < q.length + 1 + label.length then .ok none
    else do
      let q ← push queryCapacity q label.length
      let q ← pushMany queryCapacity q label
      putName q (skipDot (p.drop label.length))
termination_by p.length
decreasing_by
  have hle := skipDot_length_le (p.drop (firstLabel p).length)
  have hne : (firstLabel p).length ≠ 0 := fun hz => _h (Or.inl hz)
  have hlabel : (firstLabel p).length ≤ p.length := (List.takeWhile_sublist _).length_le
  rw [List.length_drop] at hle
  omega

/-- The loop of `getName`: where it reads, whether it has followed a pointer and how many, the offset
behind the name if so, and what it has written. -/
def getNameLoop (m : List Byte) (cap : ℕ) (pos : ℕ) (jumped : Bool) (hops off : ℕ)
    (out : List Byte) : Access (Option (ℕ × List Byte)) :=
  if _hpos : m.length ≤ pos then .ok none
  else do
    let c ← readAt m pos
    if _hc : c = 0 then
      let out ← pushWhen (out = []) cap out dot
      let _ ← push cap out 0
      .ok (some (if jumped then off else pos + 1, out))
    else if c &&& 0xC0 = 0xC0 then
      if _hhops : m.length ≤ pos + 1 ∨ 32 < hops + 1 then .ok none
      else
        let b ← readAt m (pos + 1)
        getNameLoop m cap (((c &&& 0x3F).toNat <<< 8) ||| b.toNat) true (hops + 1)
          (if jumped then off else pos + 2) out
    else
      let pos := pos + 1
      if m.length < pos + c.toNat ∨ cap < out.length + c.toNat + 2 then .ok none
      else
        let out ← pushWhen (out ≠ []) cap out dot
        let label ← readMany m pos c.toNat
        let out ← pushMany cap out label
        getNameLoop m cap (pos + c.toNat) jumped hops off out
termination_by (33 - hops, m.length - pos)

/-- Reads a possibly compressed name: the offset behind it and the name with dots; `none` for the
source's `-1`. -/
def getName (m : List Byte) (off cap : ℕ) : Access (Option (ℕ × List Byte)) :=
  getNameLoop m cap off false 0 off []

/-! ## Reading a name stays inside -/

/-- What has been written of a name leaves room for a NUL, or for a dot and a NUL. -/
def LeavesRoom (cap : ℕ) (out : List Byte) : Prop := out = [] ∨ out.length < cap

/-- The result of reading a name, if any: the offset behind it is no further than the message's end,
and the name and its NUL fit. -/
def NameInside (m : List Byte) (cap : ℕ) (result : Option (ℕ × List Byte)) : Prop :=
  ∀ off out, result = some (off, out) → off ≤ m.length ∧ out.length < cap

/-- The loop of `getName` reads inside the message and writes inside the buffer. -/
theorem getNameLoop_safe {m : List Byte} {cap : ℕ} (hcap : 2 ≤ cap) (pos : ℕ) (jumped : Bool)
    (hops off : ℕ) (out : List Byte) (hout : LeavesRoom cap out)
    (hoff : jumped = true → off ≤ m.length) :
    Safe (getNameLoop m cap pos jumped hops off out) (NameInside m cap) := by
  have hnone : NameInside m cap none := fun _ _ h => nomatch h
  -- Along the loop's own recursion, which goes on after a pointer and after a label.
  induction pos, jumped, hops, off, out using getNameLoop.induct m cap with
  | case1 pos jumped hops off out hpos =>
    rw [getNameLoop, dif_pos hpos]
    exact safe_ok hnone
  | case2 pos jumped hops off out hpos ihjump ihlabel =>
    rw [getNameLoop, dif_neg hpos]
    refine (readAt_safe (Nat.lt_of_not_le hpos)).bind fun c _ => ?_
    by_cases hc : c = 0
    · -- The end: a dot for the root, then the NUL.
      rw [dif_pos hc]
      refine (pushWhen_safe (p := out = []) ?_ dot).bind fun out' hout' => ?_
      · intro h
        rw [h]
        exact Nat.lt_of_lt_of_le Nat.zero_lt_two hcap
      · have hlt : out'.length < cap := by
          rw [hout']
          split
          · next h =>
            rw [h]
            exact hcap
          · next h => exact hout.resolve_left h
        refine (push_safe hlt 0).bind fun _ _ => safe_ok ?_
        intro off' name h
        obtain ⟨rfl, rfl⟩ := Prod.mk.inj (Option.some.inj h)
        refine ⟨?_, hlt⟩
        split
        · next hj => exact hoff hj
        · omega
    · rw [dif_neg hc]
      split
      · -- A pointer: its second octet is in the message, or it was refused; the text stays.
        split
        · exact safe_ok hnone
        · next hhops =>
          refine (readAt_safe (by omega)).bind fun b _ => ?_
          refine ihjump c hhops b hout fun _ => ?_
          split
          · next hj => exact hoff hj
          · omega
      · -- A label: it was checked to end in the message, and with its dot to leave room for the NUL.
        simp only
        split
        · exact safe_ok hnone
        · next hfits =>
          have hlabel : pos + 1 + c.toNat ≤ m.length := by omega
          refine (pushWhen_safe (fun _ => by omega) dot).bind fun out' hout' => ?_
          have hlength : out'.length ≤ out.length + 1 := by
            rw [hout']
            split
            · exact Nat.le_of_eq List.length_append
            · exact Nat.le_succ _
          refine (readMany_safe hlabel).bind fun label hread => ?_
          have hread' : label.length = c.toNat := by
            rw [hread, List.length_take, List.length_drop]
            omega
          have hroom : out'.length + label.length ≤ cap := by omega
          refine (pushMany_safe hroom).bind fun out'' hout'' => ?_
          refine ihlabel c hfits out'' (Or.inr ?_) hoff
          rw [hout'', List.length_append]
          omega

/-- `getName` reads inside the message and writes inside the buffer, for any message. -/
theorem getName_safe (m : List Byte) (off : ℕ) {cap : ℕ} (hcap : 2 ≤ cap) :
    Safe (getName m off cap) (NameInside m cap) :=
  getNameLoop_safe hcap off false 0 off [] (Or.inl rfl) (fun h => nomatch h)

end IUserApps.NsLookup
