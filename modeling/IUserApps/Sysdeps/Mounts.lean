import IUserApps.Texts

/-!
# The table of mounts

`mntent.h`: `addmntent` writes a line for a mount at the end of a file and `getmntent_r` reads the
next one, passing over blank lines and comments. A line has four words and two numbers; a word that
a line leaves out is empty, and for a number it has the one that was stored last in the call, by a
comment before it, or zero. Mounts that are added behind any lines are read as they were, and change
nothing of what is read before them (`mounts_addmntent`).
-/

namespace IUserApps.Sysdeps

open Texts

/-- `struct mntent`. -/
structure MntEnt where
  fsname : List Byte
  dir : List Byte
  type : List Byte
  opts : List Byte
  freq : ℤ
  passno : ℤ
deriving DecidableEq, Repr

/-- One `%*s`: the word after spaces, and what follows it. -/
def scanField (text : List Byte) : List Byte × List Byte :=
  (word (skipSpace text), (skipSpace text).dropWhile (!isSpace ·))

/-- The `sscanf` of a line into a mount with these numbers. -/
def scanMnt (numbers : ℤ × ℤ) (line : List Byte) : MntEnt :=
  let fsname := scanField line
  let dir := scanField fsname.2
  let type := scanField dir.2
  let opts := scanField type.2
  let freq := scanInt opts.2
  let passno := freq.bind fun read => scanInt read.2
  ⟨fsname.1, dir.1, type.1, opts.1, (freq.map Prod.fst).getD numbers.1,
    (passno.map Prod.fst).getD numbers.2⟩

/-- The two numbers of an entry. -/
def MntEnt.numbers (mnt : MntEnt) : ℤ × ℤ := (mnt.freq, mnt.passno)

/-- The line is a comment, or there is nothing behind its first word. -/
def passedOver (line : List Byte) : Bool :=
  decide ((skipSpace line).head? = some 35) || (scanField line).2.isEmpty

/-- What `getmntent_r` returns. -/
inductive GetResult
  | entry (mnt : MntEnt)
  | null
  /-- The line is longer than the buffer: `ERANGE`. -/
  | tooLong

/-- The entry of a result that is one. -/
def GetResult.mnt : GetResult → Option MntEnt
  | entry mnt => some mnt
  | null | tooLong => none

/-- `feof` after a read of a line into a buffer of `n` bytes. -/
def atEnd (n : ℕ) (line : List Byte) : Bool :=
  decide (line.getLast? ≠ some newline) && decide (line.length + 1 < n)

/-- The `fscanf` that leaves the rest of a line that is too long, and newlines. -/
def skipLine (rest : List Byte) : List Byte :=
  if rest.head? = some newline then rest
  else (rest.dropWhile (· ≠ newline)).dropWhile (· = newline)

/-- The loop of `getmntent_r` with a buffer of `n` bytes and the numbers stored so far; the internal
buffer of `getmntent` has room for any line. It makes at most one pass for each byte of the file. -/
def getmntentLoop (n : ℕ) : ℕ → ℤ × ℤ → List Byte → GetResult × List Byte
  | 0, _, file => (.null, file)
  | fuel + 1, numbers, file =>
    (fgets n file).elim (.null, file) fun read =>
      if atEnd n read.1 then (.null, read.2)
      else if newline ∉ cstr read.1 then (.tooLong, skipLine read.2)
      else
        let mnt := scanMnt numbers (cstr read.1)
        if passedOver (cstr read.1) then getmntentLoop n fuel mnt.numbers read.2
        else (.entry mnt, read.2)

/-- `getmntent_r` clears the numbers, once. -/
def getmntentR (n : ℕ) (file : List Byte) : GetResult × List Byte :=
  getmntentLoop n (file.length + 1) (0, 0) file

/-- The mounts that are read until there is none, in at most `fuel` calls. -/
def mountsFrom (n : ℕ) : ℕ → List Byte → List MntEnt
  | 0, _ => []
  | fuel + 1, file =>
    let got := getmntentR n file
    got.1.mnt.elim [] fun mnt => mnt :: mountsFrom n fuel got.2

/-- The mounts of a file. -/
def mounts (n : ℕ) (file : List Byte) : List MntEnt := mountsFrom n (file.length + 1) file

/-- The byte `'\t'`. -/
def tab : Byte := 9

/-- The line of a mount, but for its newline. -/
def mntLine (mnt : MntEnt) : List Byte :=
  mnt.fsname ++ tab :: (mnt.dir ++ tab :: (mnt.type ++ tab :: (mnt.opts ++ tab ::
    (printInt mnt.freq ++ tab :: printInt mnt.passno))))

/-- `addmntent`: the line at the end of the file. -/
def addmntent (file : List Byte) (mnt : MntEnt) : List Byte := file ++ (mntLine mnt ++ [newline])

/-! ## Lines -/

/-- The mounts of lines, with the numbers that a call has stored so far. -/
def entries : ℤ × ℤ → List (List Byte) → List MntEnt
  | _, [] => []
  | numbers, line :: lines =>
    let mnt := scanMnt numbers (line ++ [newline])
    if passedOver (line ++ [newline]) then entries mnt.numbers lines
    else mnt :: entries (0, 0) lines

/-- A line that is passed over leaves its numbers, and any other line is an entry. -/
theorem entries_cons (numbers : ℤ × ℤ) (line : List Byte) (lines : List (List Byte)) :
    entries numbers (line :: lines) =
      if passedOver (line ++ [newline]) then
        entries (scanMnt numbers (line ++ [newline])).numbers lines
      else scanMnt numbers (line ++ [newline]) :: entries (0, 0) lines := rfl

/-- A line of a file that fits the buffer. -/
structure IsLine (n : ℕ) (line : List Byte) : Prop where
  newline : newline ∉ line
  zero : (0 : Byte) ∉ line
  fits : line.length + 1 < n

/-- Lines, each with its newline. -/
def ofLines (ls : List (List Byte)) : List Byte := ls.flatMap (· ++ [newline])

variable {n : ℕ} {line : List Byte} {ls : List (List Byte)}

/-- The first line stands before the others. -/
theorem ofLines_cons (line : List Byte) (ls : List (List Byte)) :
    ofLines (line :: ls) = line ++ newline :: ofLines ls := by
  unfold ofLines
  rw [List.flatMap_cons, List.append_assoc, List.singleton_append]

/-- One pass of the loop takes one line. -/
theorem getmntentLoop_line (h : IsLine n line) (fuel : ℕ) (numbers : ℤ × ℤ) (rest : List Byte) :
    getmntentLoop n (fuel + 1) numbers (line ++ newline :: rest) =
      if passedOver (line ++ [newline]) then
        getmntentLoop n fuel (scanMnt numbers (line ++ [newline])).numbers rest
      else (.entry (scanMnt numbers (line ++ [newline])), rest) := by
  have hcstr : cstr (line ++ [newline]) = line ++ [newline] := by
    refine cstr_eq fun hzero => ?_
    rcases List.mem_append.1 hzero with hzero | hzero
    · exact h.zero hzero
    · exact absurd (List.mem_singleton.1 hzero) (by decide)
  have hend : atEnd n (line ++ [newline]) = false := by simp [atEnd]
  show (fgets n (line ++ newline :: rest)).elim _ _ = _
  rw [fgets_line h.newline h.fits]
  show (if atEnd n (line ++ [newline]) then _ else _) = _
  rw [hend, if_neg Bool.false_ne_true, hcstr, if_neg (by simp)]

/-- A call passes over lines and takes the first of the mounts that they have. -/
theorem getmntentLoop_lines (h : ∀ l ∈ ls, IsLine n l) {fuel : ℕ} (hfuel : ls.length < fuel)
    (numbers : ℤ × ℤ) :
    (∃ mnt after, getmntentLoop n fuel numbers (ofLines ls) = (.entry mnt, ofLines after) ∧
      entries numbers ls = mnt :: entries (0, 0) after ∧ after.length < ls.length ∧
      ∀ l ∈ after, IsLine n l) ∨
    (getmntentLoop n fuel numbers (ofLines ls) = (.null, []) ∧ entries numbers ls = []) := by
  induction ls generalizing fuel numbers with
  | nil =>
    right
    obtain ⟨fuel, rfl⟩ : ∃ k, fuel = k + 1 := ⟨fuel - 1, by simp at hfuel; omega⟩
    exact ⟨rfl, rfl⟩
  | cons l ls ih =>
    obtain ⟨fuel, rfl⟩ : ∃ k, fuel = k + 1 := ⟨fuel - 1, by omega⟩
    obtain ⟨hl, hls⟩ := List.forall_mem_cons.1 h
    rw [ofLines_cons, getmntentLoop_line hl, entries_cons]
    split
    · -- The numbers of a line that is passed over stay for the next.
      have hrest : ls.length < fuel := by simpa using hfuel
      rcases ih hls hrest (scanMnt numbers (l ++ [newline])).numbers with
        ⟨mnt, after, hread, hentries, hlt, hafter⟩ | ⟨hread, hentries⟩
      · exact .inl ⟨mnt, after, hread, hentries, Nat.lt_succ_of_lt hlt, hafter⟩
      · exact .inr ⟨hread, hentries⟩
    · exact .inl ⟨_, ls, rfl, rfl, Nat.lt_succ_self _, hls⟩

/-- A text has at least as many bytes as lines. -/
theorem length_le_ofLines (ls : List (List Byte)) : ls.length ≤ (ofLines ls).length := by
  induction ls with
  | nil => exact Nat.le_refl 0
  | cons l ls ih =>
    rw [ofLines_cons, List.length_append, List.length_cons, List.length_cons]
    omega

/-- The mounts of a file of lines are those of its lines. -/
theorem mountsFrom_lines (h : ∀ l ∈ ls, IsLine n l) {fuel : ℕ} (hfuel : ls.length < fuel) :
    mountsFrom n fuel (ofLines ls) = entries (0, 0) ls := by
  induction fuel generalizing ls with
  | zero => omega
  | succ fuel ih =>
    have hlen := length_le_ofLines ls
    unfold mountsFrom getmntentR
    dsimp only
    rcases getmntentLoop_lines h (Nat.lt_succ_of_le hlen) (0, 0) with
      ⟨mnt, after, hread, hentries, hlt, hafter⟩ | ⟨hread, hentries⟩
    · rw [hread, hentries]
      exact congrArg (mnt :: ·) (ih hafter (by omega))
    · rw [hread, hentries]
      rfl

/-- Reading the lines one after another gives their entries. -/
theorem mounts_lines (h : ∀ l ∈ ls, IsLine n l) : mounts n (ofLines ls) = entries (0, 0) ls := by
  have hlen := length_le_ofLines ls
  exact mountsFrom_lines h (by omega)

/-! ## Added mounts -/

/-- A word that a line can have. -/
structure IsField (field : List Byte) : Prop where
  nonempty : field ≠ []
  noSpace : ∀ b ∈ field, isSpace b = false
  noZero : (0 : Byte) ∉ field

/-- A mount that a line can have. -/
structure Storable (mnt : MntEnt) : Prop where
  fsname : IsField mnt.fsname
  dir : IsField mnt.dir
  type : IsField mnt.type
  opts : IsField mnt.opts
  noComment : mnt.fsname.head? ≠ some 35

/-- A word at the start of a line, before a tab. -/
theorem scanField_first {field : List Byte} (h : IsField field) (rest : List Byte) :
    scanField (field ++ tab :: rest) = (field, tab :: rest) := by
  have hhead : ∀ b ∈ (field ++ tab :: rest).head?, isSpace b = false := by
    obtain ⟨b, bs, rfl⟩ := List.exists_cons_of_ne_nil h.nonempty
    intro c hc
    rw [← Option.some.inj hc]
    exact h.noSpace b List.mem_cons_self
  have htab : ∀ b ∈ (tab :: rest).head?, isSpace b = true := by
    intro b hb
    rw [← Option.some.inj hb]
    rfl
  obtain ⟨hword, hleft⟩ := word_append h.noSpace htab
  unfold scanField
  rw [skipSpace_of_head hhead, hword, hleft]

/-- A word between tabs. -/
theorem scanField_tab {field : List Byte} (h : IsField field) (rest : List Byte) :
    scanField (tab :: (field ++ tab :: rest)) = (field, tab :: rest) := by
  have hskip : skipSpace (tab :: (field ++ tab :: rest)) = skipSpace (field ++ tab :: rest) := rfl
  calc scanField (tab :: (field ++ tab :: rest)) = scanField (field ++ tab :: rest) := by
        unfold scanField
        rw [hskip]
    _ = (field, tab :: rest) := scanField_first h rest

/-- A number behind a tab. -/
theorem scanInt_tab (z : ℤ) {rest : List Byte} (hrest : ∀ b ∈ rest.head?, isDigit b = false) :
    scanInt (tab :: (printInt z ++ rest)) = some (z, rest) := by
  have hspaces : ∀ b ∈ [tab], isSpace b = true := by decide
  exact scanInt_printInt z hspaces hrest

/-- A printed number has digits and a sign. -/
theorem mem_printInt {z : ℤ} {b : Byte} (hb : b ∈ printInt z) :
    isSpace b = false ∧ b ≠ newline ∧ b ≠ 0 := by
  rcases List.mem_append.1 hb with hb | hb
  · split at hb
    · rw [List.mem_singleton.1 hb]
      decide
    · simp at hb
  · obtain ⟨hspace, -, htext⟩ := isDigit_ne (isDigit_repr _ b hb)
    exact ⟨hspace, htext⟩

variable {mnt : MntEnt}

/-- What is added is one line. -/
theorem mntLine_isLine (h : Storable mnt) : newline ∉ mntLine mnt ∧ (0 : Byte) ∉ mntLine mnt := by
  have hspace : isSpace newline = true := rfl
  have hfield : ∀ field, IsField field → newline ∉ field ∧ (0 : Byte) ∉ field := by
    intro field hf
    refine ⟨fun hmem => ?_, hf.noZero⟩
    rw [hf.noSpace _ hmem] at hspace
    exact Bool.false_ne_true hspace
  have hnumber : ∀ z, newline ∉ printInt z ∧ (0 : Byte) ∉ printInt z :=
    fun z => ⟨fun hb => (mem_printInt hb).2.1 rfl, fun hb => (mem_printInt hb).2.2 rfl⟩
  have htab : newline ≠ tab ∧ (0 : Byte) ≠ tab := by decide
  unfold mntLine
  simp only [List.mem_append, List.mem_cons, not_or]
  have h1 := hfield _ h.fsname
  have h2 := hfield _ h.dir
  have h3 := hfield _ h.type
  have h4 := hfield _ h.opts
  have h5 := hnumber mnt.freq
  have h6 := hnumber mnt.passno
  exact ⟨⟨h1.1, htab.1, h2.1, htab.1, h3.1, htab.1, h4.1, htab.1, h5.1, htab.1, h6.1⟩,
    ⟨h1.2, htab.2, h2.2, htab.2, h3.2, htab.2, h4.2, htab.2, h5.2, htab.2, h6.2⟩⟩

/-- The line of a mount has that mount, whatever numbers came before. -/
theorem scanMnt_mntLine (h : Storable mnt) (numbers : ℤ × ℤ) :
    passedOver (mntLine mnt ++ [newline]) = false ∧
      scanMnt numbers (mntLine mnt ++ [newline]) = mnt := by
  have hline : mntLine mnt ++ [newline] = mnt.fsname ++ tab :: (mnt.dir ++ tab :: (mnt.type ++
      tab :: (mnt.opts ++ tab :: (printInt mnt.freq ++ tab :: (printInt mnt.passno ++
        [newline]))))) := by
    unfold mntLine
    simp only [List.append_assoc, List.cons_append]
  have hpassed : passedOver (mntLine mnt ++ [newline]) = false := by
    obtain ⟨b, bs, hcons⟩ := List.exists_cons_of_ne_nil h.fsname.nonempty
    have hb : isSpace b = false := h.fsname.noSpace b (by rw [hcons]; exact List.mem_cons_self)
    have hcomment : b ≠ 35 := fun heq => h.noComment (by rw [hcons, heq]; rfl)
    unfold passedOver
    rw [hline, scanField_first h.fsname, hcons]
    simpa [skipSpace, hb] using hcomment
  have htab : ∀ rest : List Byte, ∀ b ∈ (tab :: rest).head?, isDigit b = false := by
    intro rest b hb
    rw [← Option.some.inj hb]
    rfl
  have hnewline : ∀ b ∈ [newline].head?, isDigit b = false := by
    intro b hb
    rw [← Option.some.inj hb]
    rfl
  refine ⟨hpassed, ?_⟩
  rw [hline]
  simp only [scanMnt, scanField_first h.fsname, scanField_tab h.dir, scanField_tab h.type,
    scanField_tab h.opts, scanInt_tab mnt.freq (htab _), Option.bind_some,
    scanInt_tab mnt.passno hnewline, Option.map_some, Option.getD_some]

/-- The mounts of lines and then of mounts that were added. -/
theorem entries_append {added : List MntEnt} (h : ∀ mnt ∈ added, Storable mnt) (numbers : ℤ × ℤ)
    (ls : List (List Byte)) :
    entries numbers (ls ++ added.map mntLine) = entries numbers ls ++ added := by
  induction ls generalizing numbers with
  | nil =>
    induction added generalizing numbers with
    | nil => rfl
    | cons mnt added ih =>
      obtain ⟨hmnt, hadded⟩ := List.forall_mem_cons.1 h
      obtain ⟨hpassed, hscan⟩ := scanMnt_mntLine hmnt numbers
      have hrest := ih hadded (0, 0)
      rw [List.nil_append] at hrest ⊢
      rw [List.map_cons, entries_cons, hpassed, if_neg Bool.false_ne_true, hscan, hrest]
      rfl
  | cons l ls ih =>
    rw [List.cons_append, entries_cons, entries_cons]
    split
    · exact ih _
    · exact congrArg (_ :: ·) (ih _)

/-- Mounts that are added behind any lines are read as they were, after the mounts that are read
from those. -/
theorem mounts_addmntent (ls : List (List Byte)) (hls : ∀ l ∈ ls, newline ∉ l ∧ (0 : Byte) ∉ l)
    (added : List MntEnt) (hadded : ∀ mnt ∈ added, Storable mnt)
    (hfits : ∀ l ∈ ls ++ added.map mntLine, l.length + 1 < n) :
    mounts n (added.foldl addmntent (ofLines ls)) = mounts n (ofLines ls) ++ added := by
  have hfile : added.foldl addmntent (ofLines ls) = ofLines (ls ++ added.map mntLine) := by
    clear hls hadded hfits
    induction added generalizing ls with
    | nil => simp
    | cons mnt added ih =>
      have hadd : addmntent (ofLines ls) mnt = ofLines (ls ++ [mntLine mnt]) := by
        simp [addmntent, ofLines]
      rw [List.foldl_cons, hadd, ih, List.map_cons, List.append_assoc, List.singleton_append]
  have hlines : ∀ l ∈ ls ++ added.map mntLine, IsLine n l := by
    intro l hl
    have hbytes : newline ∉ l ∧ (0 : Byte) ∉ l := by
      rcases List.mem_append.1 hl with hl | hl
      · exact hls l hl
      · obtain ⟨mnt, hmnt, rfl⟩ := List.mem_map.1 hl
        exact mntLine_isLine (hadded mnt hmnt)
    exact ⟨hbytes.1, hbytes.2, hfits l hl⟩
  have hold : ∀ l ∈ ls, IsLine n l := fun l hl => hlines l (List.mem_append_left _ hl)
  rw [hfile, mounts_lines hlines, mounts_lines hold, entries_append hadded]

/-- A comment with numbers, a line of another program that leaves them out and so has those, and a
mount that is added. -/
theorem mounts_addmntent_one :
    mounts 64 ([(⟨ascii "/dev/sda1", ascii "/mnt", ascii "ext2", ascii "rw", 0, -1⟩ : MntEnt)].foldl
        addmntent (ofLines [ascii "# fs dir type 3 4", ascii "ram  / tmpfs rw"])) =
      [⟨ascii "ram", ascii "/", ascii "tmpfs", ascii "rw", 3, 4⟩,
        ⟨ascii "/dev/sda1", ascii "/mnt", ascii "ext2", ascii "rw", 0, -1⟩] := by
  have hfield : ∀ text : String, ascii text ≠ [] → (∀ b ∈ ascii text, isSpace b = false) →
      (0 : Byte) ∉ ascii text → IsField (ascii text) := fun _ h h' h'' => ⟨h, h', h''⟩
  refine (mounts_addmntent [ascii "# fs dir type 3 4", ascii "ram  / tmpfs rw"] (by decide) _ ?_
    (by decide +kernel)).trans (by decide +kernel)
  intro mnt hmnt
  rw [List.mem_singleton.1 hmnt]
  exact ⟨hfield _ (by decide) (by decide) (by decide), hfield _ (by decide) (by decide) (by decide),
    hfield _ (by decide) (by decide) (by decide), hfield _ (by decide) (by decide) (by decide),
    by decide⟩

end IUserApps.Sysdeps
