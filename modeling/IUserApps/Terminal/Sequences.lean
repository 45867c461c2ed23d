import IUserApps.Terminal.TextBuffer

/-!
# Control and escape sequences

The grammar of ECMA-48: a control sequence is `ESC [`, parameter bytes, intermediate bytes and a
final byte, and an escape sequence is `ESC`, intermediate bytes and a final byte. The parser takes a
sequence exactly when it is back in `Ground` after the final byte and not before, and puts no byte of
it on the grid. It knows the digits, `;` and `?` among the parameter bytes and no intermediate byte:
any other ends the sequence there, and what is left of it is read as text. `consumed_iff` says which
sequences are taken, for every terminal.
-/

namespace IUserApps.Terminal

open Runs

/-- `ESC`. -/
def esc : Byte := 0x1B

/-- `'['`. -/
def bracket : Byte := 0x5B

/-- The parameters of a control sequence, by ECMA-48. -/
def IsParameterByte (b : Byte) : Prop := 0x30 ≤ b.toNat ∧ b.toNat ≤ 0x3F
/-- The intermediate bytes of a sequence, by ECMA-48. -/
def IsIntermediateByte (b : Byte) : Prop := 0x20 ≤ b.toNat ∧ b.toNat ≤ 0x2F

instance : DecidablePred IsParameterByte := fun _ => inferInstanceAs (Decidable (_ ∧ _))
instance : DecidablePred IsIntermediateByte := fun _ => inferInstanceAs (Decidable (_ ∧ _))

/-- `ESC [`, parameter bytes, intermediate bytes and a final byte. -/
structure ControlSequence where
  parameters : List Byte
  intermediates : List Byte
  final : Byte
  isParameter : ∀ b ∈ parameters, IsParameterByte b
  isIntermediate : ∀ b ∈ intermediates, IsIntermediateByte b
  isFinal : 0x40 ≤ final.toNat ∧ final.toNat ≤ 0x7E

/-- `ESC`, intermediate bytes and a final byte, which does not introduce a control sequence. -/
structure EscapeSequence where
  intermediates : List Byte
  final : Byte
  isIntermediate : ∀ b ∈ intermediates, IsIntermediateByte b
  isFinal : 0x30 ≤ final.toNat ∧ final.toNat ≤ 0x7E
  ne_bracket : final ≠ bracket

/-- A sequence of bytes that a terminal is to consume whole. -/
inductive Sequence
  | control (s : ControlSequence)
  | escape (s : EscapeSequence)

namespace Sequence

/-- The bytes before the final one. -/
def start : Sequence → List Byte
  | control s => esc :: bracket :: (s.parameters ++ s.intermediates)
  | escape s => esc :: s.intermediates

/-- The byte a sequence ends with. -/
def final : Sequence → Byte
  | control s => s.final
  | escape s => s.final

/-- All bytes of a sequence. -/
def bytes (s : Sequence) : List Byte := s.start ++ [s.final]

end Sequence

/-- A byte that is fed to the parser goes on the grid. -/
def PutsText (t : Terminal) (ch : Byte) : Prop := t.parser.state = .ground ∧ 32 ≤ ch.toNat

/-- Such a byte is put in a cell. -/
theorem PutsText.parserFeed {t : Terminal} {ch : Byte} (h : PutsText t ch) :
    parserFeed t ch = putChar t ch := parserFeed_printable h.1 h.2

/-- Bytes fed to a terminal are taken as one sequence: the parser is back in `Ground` after the last
of them and not before, and none of them is put on the grid. -/
structure Consumed (t : Terminal) (bytes : List Byte) : Prop where
  within : ∀ read rest, bytes = read ++ rest → read ≠ [] → rest ≠ [] →
    (feedBytes t read).parser.state ≠ .ground
  ends : (feedBytes t bytes).parser.state = .ground
  noText : Along parserFeed (fun t ch => ¬PutsText t ch) t bytes

/-- The bytes of a control sequence that the parser collects. -/
def isCollected (b : Byte) : Bool :=
  isDigit b || decide (b.toNat = ';'.toNat) || decide (b.toNat = '?'.toNat)

/-- The sequences that the parser knows: digits, `;` and `?` for parameters, and no intermediate
bytes. -/
def Sequence.Known : Sequence → Prop
  | control s => (∀ b ∈ s.parameters, isCollected b = true) ∧ s.intermediates = []
  | escape s => s.intermediates = []

variable {t : Terminal}

/-- The first byte is fed, then the others. -/
theorem feedBytes_cons (t : Terminal) (b : Byte) (bs : List Byte) :
    feedBytes t (b :: bs) = feedBytes (parserFeed t b) bs := rfl

/-- Bytes in sequence: the first ones, then the others. -/
theorem feedBytes_append (t : Terminal) (bs bs' : List Byte) :
    feedBytes t (bs ++ bs') = feedBytes (feedBytes t bs) bs' := List.foldl_append

/-- `ESC` starts a sequence. -/
theorem parserFeed_esc (hs : t.parser.state = .ground) :
    parserFeed t esc = { t with parser.state := .escape } := by
  simp [parserFeed, hs, feedGround, esc]

/-- `[` after `ESC` starts a control sequence. -/
theorem parserFeed_bracket (hs : t.parser.state = .escape) :
    parserFeed t bracket = { t with parser := ⟨.csi, fun _ => 0, 0, false⟩ } := by
  simp [parserFeed, hs, feedEscape, bracket]

/-- Any other byte after `ESC` ends the sequence. -/
theorem parserFeed_escape {b : Byte} (hs : t.parser.state = .escape) (hb : b ≠ bracket) :
    parserFeed t b = { t with parser.state := .ground } := by
  have hne : b.toNat ≠ '['.toNat := fun h => hb (BitVec.eq_of_toNat_eq h)
  simp only [parserFeed, hs, feedEscape]
  rw [if_neg hne]

/-- A byte that is collected changes the parser's parameters only. -/
theorem parserFeed_collected {b : Byte} (hs : t.parser.state = .csi) (hb : isCollected b = true) :
    ∃ p : VTParser, p.state = .csi ∧ parserFeed t b = { t with parser := p } := by
  simp only [isCollected, Bool.or_eq_true, decide_eq_true_eq] at hb
  refine ⟨(parserFeed t b).parser, ?_⟩
  simp only [parserFeed, hs, feedCsi]
  rcases hb with (hdigit | hsemicolon) | hquestion
  · simp [hdigit]
  · rw [if_pos hsemicolon]
    split <;> simp
  · rw [if_pos hquestion]
    split
    · simp
    · split
      · simp
      · simp [hs]

/-- Another byte below the final ones ends the control sequence. -/
theorem parserFeed_unknown {b : Byte} (hs : t.parser.state = .csi) (hb : isCollected b = false)
    (hlow : b.toNat < 0x40) : (parserFeed t b).parser.state = .ground := by
  simp only [isCollected, Bool.or_eq_false_iff, decide_eq_false_iff_not] at hb
  obtain ⟨⟨hdigit, hsemicolon⟩, hquestion⟩ := hb
  simp only [parserFeed, hs, feedCsi, hdigit]
  rw [if_neg (by simp), if_neg hsemicolon, if_neg hquestion, if_neg (by omega)]

/-- A final byte carries the control sequence out. -/
theorem parserFeed_final {b : Byte} (hs : t.parser.state = .csi)
    (hb : 0x40 ≤ b.toNat ∧ b.toNat ≤ 0x7E) :
    parserFeed t b = { handleCsi t b with parser.state := .ground } := by
  have hdigit : isDigit b = false := by
    have h9 : '9'.toNat = 57 := rfl
    simp [isDigit, h9]
    omega
  have hsemicolon : b.toNat ≠ ';'.toNat := by
    have h : ';'.toNat = 59 := rfl
    omega
  have hquestion : b.toNat ≠ '?'.toNat := by
    have h : '?'.toNat = 63 := rfl
    omega
  simp only [parserFeed, hs, feedCsi, hdigit]
  rw [if_neg (by simp), if_neg hsemicolon, if_neg hquestion, if_pos hb]

/-- Collected bytes change the parser's parameters only. -/
theorem feedBytes_collected {bs : List Byte} (hs : t.parser.state = .csi)
    (hbs : ∀ b ∈ bs, isCollected b = true) :
    ∃ p : VTParser, p.state = .csi ∧ feedBytes t bs = { t with parser := p } := by
  induction bs generalizing t with
  | nil => exact ⟨t.parser, hs, rfl⟩
  | cons b bs ih =>
    obtain ⟨p, hp, hfeed⟩ := parserFeed_collected hs (hbs b List.mem_cons_self)
    obtain ⟨p', hp', hfeed'⟩ := ih (t := { t with parser := p }) hp
      fun b' hb' => hbs b' (List.mem_cons_of_mem b hb')
    refine ⟨p', hp', ?_⟩
    rw [feedBytes_cons, hfeed, hfeed']

/-- After `ESC [` and collected bytes the terminal is as it was, apart from the parser. -/
theorem feedBytes_introduced {bs : List Byte} (hs : t.parser.state = .ground)
    (hbs : ∀ b ∈ bs, isCollected b = true) : ∃ p : VTParser, p.state = .csi ∧
      feedBytes t (esc :: bracket :: bs) = { t with parser := p } := by
  rw [feedBytes_cons, parserFeed_esc hs, feedBytes_cons, parserFeed_bracket rfl]
  exact feedBytes_collected rfl hbs

/-! ## Sequences -/

variable {s : Sequence}

/-- What is read before the end of a sequence lies before its final byte. -/
theorem prefix_start {read rest : List Byte} (h : s.bytes = read ++ rest) (hrest : rest ≠ []) :
    read <+: s.start := by
  have hread : read <+: s.start ++ [s.final] := ⟨rest, h.symm⟩
  rcases List.prefix_concat_iff.1 hread with hall | hstart
  · -- All of the sequence has been read, so nothing is left of it.
    refine absurd ?_ hrest
    rw [hall, Sequence.bytes] at h
    simpa using h.symm
  · exact hstart

/-- Before the end of a sequence that the parser knows it is not in `Ground`. -/
theorem within_of_known (hs : t.parser.state = .ground) (hknown : s.Known) {read : List Byte}
    (hread : read <+: s.start) (hne : read ≠ []) : (feedBytes t read).parser.state ≠ .ground := by
  obtain ⟨first, read, rfl⟩ := List.exists_cons_of_ne_nil hne
  cases s with
  | control s =>
    obtain ⟨hcollected, hnone⟩ := hknown
    rw [Sequence.start, hnone, List.append_nil] at hread
    obtain ⟨rfl, htail⟩ := List.cons_prefix_cons.1 hread
    cases read with
    | nil =>
      rw [feedBytes_cons, parserFeed_esc hs]
      exact VTParser.State.noConfusion
    | cons second read =>
      obtain ⟨rfl, hrest⟩ := List.cons_prefix_cons.1 htail
      obtain ⟨p, hp, hfeed⟩ := feedBytes_introduced hs fun b hb => hcollected b (hrest.subset hb)
      rw [hfeed]
      simp [hp]
  | escape s =>
    rw [Sequence.start, show s.intermediates = [] from hknown] at hread
    obtain ⟨rfl, htail⟩ := List.cons_prefix_cons.1 hread
    rw [List.prefix_nil.1 htail, feedBytes_cons, parserFeed_esc hs]
    exact VTParser.State.noConfusion

/-- A control sequence that the parser knows is carried out with the parameters that it has read. -/
theorem feedBytes_control (hs : t.parser.state = .ground) {c : ControlSequence}
    (hknown : (Sequence.control c).Known) : ∃ p : VTParser, p.state = .csi ∧
      feedBytes t (Sequence.control c).bytes =
        { handleCsi { t with parser := p } c.final with parser.state := .ground } := by
  obtain ⟨hcollected, hnone⟩ := hknown
  obtain ⟨p, hp, hfeed⟩ := feedBytes_introduced hs hcollected
  refine ⟨p, hp, ?_⟩
  rw [Sequence.bytes, feedBytes_append, Sequence.start, hnone, List.append_nil, hfeed]
  exact parserFeed_final hp c.isFinal

/-- An escape sequence that the parser knows does nothing. -/
theorem feedBytes_escape (hs : t.parser.state = .ground) {e : EscapeSequence}
    (hknown : (Sequence.escape e).Known) : feedBytes t (Sequence.escape e).bytes = t := by
  rw [Sequence.bytes, feedBytes_append, Sequence.start, show e.intermediates = [] from hknown]
  show parserFeed (parserFeed t esc) e.final = t
  rw [parserFeed_esc hs, parserFeed_escape rfl e.ne_bracket, ← hs]

/-- After a byte that it does not collect the parser is in `Ground`, and the sequence goes on. -/
theorem known_of_within (hs : t.parser.state = .ground)
    (hwithin : ∀ read, read <+: s.start → read ≠ [] → (feedBytes t read).parser.state ≠ .ground) :
    s.Known := by
  cases s with
  | control s =>
    have hall : ∀ b ∈ s.parameters ++ s.intermediates, isCollected b = true := by
      cases hfind : (s.parameters ++ s.intermediates).find? fun b => !isCollected b with
      | none => simpa [or_imp, forall_and] using hfind
      | some b =>
        obtain ⟨hb, collected, rest, hsplit, hcollected⟩ := List.find?_eq_some_iff_append.1 hfind
        simp only [Bool.not_eq_true', Bool.not_not] at hb hcollected
        obtain ⟨p, hp, hfeed⟩ := feedBytes_introduced hs hcollected
        have hlow : b.toNat < 0x40 := by
          have hmem : b ∈ s.parameters ++ s.intermediates := by simp [hsplit]
          rcases List.mem_append.1 hmem with hmem | hmem
          · exact Nat.lt_succ_of_le (s.isParameter b hmem).2
          · exact Nat.lt_of_le_of_lt (s.isIntermediate b hmem).2 (by decide)
        -- The bytes up to this one are no whole sequence, but the parser takes them for one.
        refine absurd ?_ (hwithin (esc :: bracket :: collected ++ [b]) ?_ (List.cons_ne_nil _ _))
        · rw [feedBytes_append, hfeed]
          exact parserFeed_unknown hp hb hlow
        · exact ⟨rest, by simp [Sequence.start, hsplit]⟩
    refine ⟨fun b hb => hall b (List.mem_append_left _ hb), ?_⟩
    -- No intermediate byte is collected.
    refine List.eq_nil_iff_forall_not_mem.2 fun b hb => ?_
    have hcollected := hall b (List.mem_append_right _ hb)
    obtain ⟨hlow, hhigh⟩ := s.isIntermediate b hb
    have h0 : '0'.toNat = 48 := rfl
    have hsemicolon : ';'.toNat = 59 := rfl
    have hquestion : '?'.toNat = 63 := rfl
    simp only [isCollected, isDigit, Bool.or_eq_true, Bool.and_eq_true, decide_eq_true_eq]
      at hcollected
    omega
  | escape s =>
    refine List.eq_nil_iff_forall_not_mem.2 fun b hb => ?_
    obtain ⟨first, rest, hsplit⟩ := List.exists_cons_of_ne_nil (List.ne_nil_of_mem hb)
    have hne : first ≠ bracket := by
      rintro rfl
      have hfirst := s.isIntermediate bracket (by simp [hsplit])
      exact absurd hfirst.2 (by decide)
    refine hwithin [esc, first] ⟨rest, by simp [Sequence.start, hsplit]⟩ (List.cons_ne_nil _ _) ?_
    rw [feedBytes_cons, parserFeed_esc hs]
    show (parserFeed { t with parser.state := .escape } first).parser.state = .ground
    rw [parserFeed_escape rfl hne]

/-- From `Ground` a sequence is taken as one exactly when the parser knows it. -/
theorem consumed_iff (t : Terminal) (hs : t.parser.state = .ground) (s : Sequence) :
    Consumed t s.bytes ↔ s.Known := by
  constructor
  · intro h
    refine known_of_within hs fun read hread hne => ?_
    obtain ⟨rest, hrest⟩ := hread
    refine h.within read (rest ++ [s.final]) ?_ hne (by simp)
    rw [Sequence.bytes, ← hrest, List.append_assoc]
  · intro hknown
    have hwithin : ∀ read rest, s.bytes = read ++ rest → read ≠ [] → rest ≠ [] →
        (feedBytes t read).parser.state ≠ .ground := by
      intro read rest hsplit hread hrest
      exact within_of_known hs hknown (prefix_start hsplit hrest) hread
    refine ⟨hwithin, ?_, along_iff.2 ?_⟩
    · cases s with
      | control c =>
        obtain ⟨p, -, hfeed⟩ := feedBytes_control hs hknown
        rw [hfeed]
      | escape e => rw [feedBytes_escape hs hknown, hs]
    · rintro read b rest hsplit ⟨hground, hprints⟩
      -- Only the first byte is read in `Ground`, and it is `ESC`.
      have hread : read = [] := by
        by_contra hne
        exact hwithin read (b :: rest) hsplit hne (List.cons_ne_nil _ _) hground
      have hb : b = esc := by
        rw [hread, List.nil_append] at hsplit
        cases s with
        | control s => exact (List.cons.inj hsplit).1.symm
        | escape s => exact (List.cons.inj hsplit).1.symm
      rw [hb] at hprints
      exact absurd hprints (by decide)

/-- `ESC [ ? 2 5 h`, which shows the cursor, is taken. -/
def showCursor : ControlSequence :=
  ⟨[0x3F, 0x32, 0x35], [], 0x68, by decide, by decide, by decide⟩

/-- The sequence that shows the cursor. -/
theorem consumed_showCursor : Consumed created (Sequence.control showCursor).bytes :=
  (consumed_iff created rfl (.control showCursor)).2 ⟨by decide, rfl⟩

/-- `ESC [ > c`, which asks for the terminal's version. -/
def secondaryAttributes : ControlSequence := ⟨[0x3E], [], 0x63, by decide, by decide, by decide⟩

/-- `ESC ( B`, which designates the ASCII character set. -/
def designateAscii : EscapeSequence := ⟨[0x28], 0x42, by decide, by decide, by decide⟩

/-- Both end before their final byte, and that one goes on the grid. -/
theorem designateAscii_printed : ∃ size : CellSize,
    ¬Consumed (shown 40 56 size) (Sequence.control secondaryAttributes).bytes ∧
    ((feedBytes (shown 40 56 size) (Sequence.control secondaryAttributes).bytes).grid 0 0).ch =
      0x63 ∧
    ¬Consumed (shown 40 56 size) (Sequence.escape designateAscii).bytes ∧
    ((feedBytes (shown 40 56 size) (Sequence.escape designateAscii).bytes).grid 0 0).ch = 0x42 := by
  refine ⟨⟨8, 16, by decide, by decide⟩, ?_, by decide, ?_, by decide⟩
  · intro h
    exact h.within [esc, bracket, 0x3E] [0x63] rfl (by decide) (by decide) (by decide)
  · intro h
    exact h.within [esc, 0x28] [0x42] rfl (by decide) (by decide) (by decide)

end IUserApps.Terminal
