import IUserApps.Compositor.Background
import IUserApps.Exchange
import Mathlib.Data.List.Lex

/-!
# The background switcher

The window lists the images of a directory by name, and asks the compositor to show the selected one
(`background-switcher`). Its requests go through a service whose other clients are not known: the
messages of the two arrive in any order, a request or its reply can be lost, and the window is told
of success only (`Session`). A row holds 127 bytes of a name and 191 of a path: by these the list is
sorted, and these are asked for (`Listed`).

`switcher_follows` puts the two programs together: whatever is selected, applied and sent by others,
the requests are for listed images and do not come closer than the cooldown, and the window says
that the background was updated only when the compositor shows that image.
-/

namespace IUserApps.BackgroundSwitcher

open Checked Services Compositor
open FileBrowser (DirEntry appendText)

/-- The milliseconds that must pass between two applications. -/
def kApplyCooldownMs : BitVec 64 := 250
/-- The images listed at most. -/
def kMaxEntries : ℕ := 32

/-- An image: its name and its path, as their buffers hold them. -/
structure BackgroundEntry where
  name : List Byte
  path : List Byte
deriving DecidableEq

/-- How a status is shown. -/
inductive StatusColor
  | danger | textDim | success
deriving DecidableEq, Repr

/-- The window. Of an empty list no row is selected. -/
structure Switcher where
  entries : ℕ → BackgroundEntry
  entryCount : ℕ
  selected : Option (Fin kMaxEntries)
  status : String × StatusColor
  lastApplyMs : BitVec 64

/-! ## The list -/

/-- The first string comes before the second for `strcmp`, which compares unsigned bytes. -/
def strcmpBefore (lhs rhs : BackgroundEntry) : Bool :=
  decide (lhs.name.map BitVec.toNat < rhs.name.map BitVec.toNat)

/-- The entry of a file. -/
def entryOf (found : DirEntry) : BackgroundEntry := ⟨found.name.take 127, backgroundPath found.name⟩

/-- The images among the files. -/
def pngFiles (found : List DirEntry) : List DirEntry :=
  found.filter fun f => f.type = .regular && hasPngSuffix f.name

/-- Their entries. -/
def images (found : List DirEntry) : List BackgroundEntry := (pngFiles found).map entryOf

/-- Nothing is listed and nothing selected. -/
def Switcher.start : Switcher := ⟨fun _ => ⟨[], []⟩, 0, none, ("", .textDim), 0⟩

/-- The window after `load_backgrounds`, for the files of the directory if it can be read. -/
def loadBackgrounds (directory : Option (List DirEntry)) : Switcher :=
  match directory.map (List.take kMaxEntries) with
  | none => { Switcher.start with status := ("Failed to read /bin/backgrounds", .danger) }
  | some found =>
    let list := images found
    let entries := Exchange.exchangeSort strcmpBefore list.length (list.getD · ⟨[], []⟩)
    { Switcher.start with
      entries := entries
      entryCount := list.length
      selected := if 0 < list.length then some ⟨0, by decide⟩ else none
      status :=
        if list.length = 0 then ("No PNG files found in /bin/backgrounds", .danger)
        else ("Enter or a double click applies the selected background", .textDim) }

/-- The rows of the list. -/
def Switcher.rows (w : Switcher) : List BackgroundEntry := (List.range w.entryCount).map w.entries

/-- Of two names only one comes first. -/
theorem strcmpBefore_asymm (x y : BackgroundEntry) (h : strcmpBefore x y = true) :
    strcmpBefore y x = false :=
  decide_eq_false (lt_asymm (of_decide_eq_true h))

/-- Not to come after another name is transitive. -/
theorem strcmpBefore_trans (x y z : BackgroundEntry) (hxy : strcmpBefore y x = false)
    (hyz : strcmpBefore z y = false) : strcmpBefore z x = false := by
  have hle := not_lt.1 (of_decide_eq_false hxy)
  have hle' := not_lt.1 (of_decide_eq_false hyz)
  exact decide_eq_false (not_lt.2 (hle.trans hle'))

/-- An array that holds a list, read as far as the list goes, is the list. -/
theorem map_getD_range (list : List BackgroundEntry) :
    (List.range list.length).map (list.getD · ⟨[], []⟩) = list := by
  apply List.ext_getElem
  · simp
  · intro i hi hi'
    simp [hi']

/-- A row is of a file: it has its name and its path in the directory, as far as they go in. A name of
174 bytes leaves the path whole. -/
structure IsRow (row : BackgroundEntry) (f : DirEntry) : Prop where
  name : row.name = f.name.take 127
  path : row.path = (kBackgroundDirectory ++ ascii "/" ++ f.name).take 191

/-- The entry of a file is a row for it. -/
theorem entryOf_isRow (f : DirEntry) : IsRow (entryOf f) f := by
  have hstart : appendText 192 (appendText 192 [] kBackgroundDirectory) (ascii "/") =
      kBackgroundDirectory ++ ascii "/" := by decide
  have hlength : (kBackgroundDirectory ++ ascii "/").length ≤ 191 := by decide
  refine ⟨rfl, ?_⟩
  unfold entryOf backgroundPath
  dsimp only
  rw [hstart, List.take_append, List.take_of_length_le hlength]
  rfl

/-- The images that are read have one row each, the rows are sorted by their names, and there is no
entry behind them. -/
structure Listed (directory : Option (List DirEntry)) (w : Switcher) : Prop where
  files : ∃ files, List.Forall₂ IsRow w.rows files ∧
    files.Perm (pngFiles (directory.elim [] (List.take kMaxEntries)))
  sorted : w.rows.Pairwise fun x y => strcmpBefore y x = false
  behind : ∀ i, w.entryCount ≤ i → w.entries i = ⟨[], []⟩

/-- What is loaded lists the images of the directory. -/
theorem loadBackgrounds_listed (directory : Option (List DirEntry)) :
    Listed directory (loadBackgrounds directory) := by
  cases directory with
  | none => exact ⟨⟨[], .nil, .refl _⟩, .nil, fun i _ => rfl⟩
  | some found =>
    have hperm := @Exchange.exchangeSort_perm _ strcmpBefore
      (images (found.take kMaxEntries)).length ((images (found.take kMaxEntries)).getD · ⟨[], []⟩)
    rw [map_getD_range] at hperm
    have hrows : List.Forall₂ IsRow (images (found.take kMaxEntries))
        (pngFiles (found.take kMaxEntries)) := by
      unfold images
      rw [List.forall₂_map_left_iff, List.forall₂_same]
      exact fun f _ => entryOf_isRow f
    refine ⟨List.perm_comp_forall₂ hperm hrows,
      Exchange.exchangeSort_sorted strcmpBefore_asymm strcmpBefore_trans _ _, ?_⟩
    intro i hi
    have hnone : (images (found.take kMaxEntries))[i]? = none := List.getElem?_eq_none hi
    exact (Exchange.exchangeSort_of_le _ _ hi).trans (by simp [hnone])

/-- Every place of the array holds a row or nothing. -/
theorem Listed.entry {directory : Option (List DirEntry)} {w : Switcher} (h : Listed directory w)
    (i : ℕ) : w.entries i ∈ w.rows ∨ w.entries i = ⟨[], []⟩ := by
  by_cases hi : i < w.entryCount
  · exact .inl (List.mem_map_of_mem (List.mem_range.2 hi))
  · exact .inr (h.behind i (Nat.le_of_not_lt hi))

/-- The path of a row has no NUL. -/
theorem IsRow.no_nul {row : BackgroundEntry} {f : DirEntry} (h : IsRow row f) :
    (0 : Byte) ∉ row.path := by
  rw [h.path]
  intro hin
  rcases List.mem_append.1 (List.mem_of_mem_take hin) with hdirectory | hname
  · exact absurd hdirectory (by decide)
  · exact f.name_no_nul hname

/-- No path of the array has a NUL. -/
theorem Listed.no_nul {directory : Option (List DirEntry)} {w : Switcher} (h : Listed directory w)
    (i : ℕ) : (0 : Byte) ∉ (w.entries i).path := by
  rcases h.entry i with hin | hempty
  · obtain ⟨files, hrows, -⟩ := h.files
    obtain ⟨j, hj, hentry⟩ := List.mem_iff_getElem.1 hin
    have hrow := (List.forall₂_iff_get.1 hrows).2 j hj (hrows.length_eq ▸ hj)
    rw [← hentry]
    exact hrow.no_nul
  · rw [hempty]
    exact List.not_mem_nil

/-! ## Applying -/

/-- What the window uses of the protocol beside what the compositor does. -/
class SwitcherProtocol extends CompositorProtocol where
  /-- The message of `encode_request`, with what the queue adds to it. -/
  encodeRequest : SetBackgroundRequest → Option IPCMessage
  /-- The size of `path` of a `SetBackgroundRequest`. -/
  pathSize : ℕ

/-- The request for a path. -/
def setBackgroundRequest [SwitcherProtocol] (path : List Byte) : SetBackgroundRequest :=
  ⟨⟨Protocol.graphicsCompositor.version, CompositorProtocol.opSetBackground, 0⟩,
    path.take (SwitcherProtocol.pathSize - 1)⟩

/-- A request that is encoded is read back as it was. -/
class LawfulSwitcherProtocol [SwitcherProtocol] : Prop where
  pathSize_gt : 1 < SwitcherProtocol.pathSize
  opcode_ne : CompositorProtocol.opSetBackground ≠ Protocol.graphicsCompositor.opHello
  isRequest : ∀ request message, SwitcherProtocol.encodeRequest request = some message →
    message.isRequest = true ∧ message.flags &&& CompositorProtocol.event = 0
  size : ∀ request message, SwitcherProtocol.encodeRequest request = some message →
    Protocol.headerSize ≤ message.data.length ∧
      CompositorProtocol.setBackgroundRequestSize ≤ message.data.length
  reads : ∀ path message, (0 : Byte) ∉ path →
    SwitcherProtocol.encodeRequest (setBackgroundRequest path) = some message →
    Protocol.header message.data = (setBackgroundRequest path).header ∧
      CompositorProtocol.path message.data = (setBackgroundRequest path).path

/-- What becomes of a call: whether the compositor is found, whether it gets the message, what
loading the image meets there, and whether the whole reply comes back. -/
structure Call [UiColors] where
  connected : Bool
  received : Bool
  loading : Loading
  replied : Bool

/-- A call of `apply` that came after the cooldown. -/
structure Applied [UiColors] where
  now : BitVec 64
  path : List Byte
  call : Call
  updated : Bool

/-- What reaches the compositor, or should have. -/
inductive Act [UiColors]
  | asked (asked : Asked)
  | applied (applied : Applied)

/-- The two programs, and what happened between them. -/
structure Session [UiColors] where
  switcher : Switcher
  compositor : Requests
  acts : List Act

/-- Rows are selected by the list box; the messages are those of others. -/
inductive Event [UiColors]
  | selects (row : Option (Fin kMaxEntries))
  | applies (now : BitVec 64) (call : Call)
  | message (asked : Asked)

/-- The status of the reply that was added. -/
def replyStatus [UiColors] (before after : Requests) : Option Status :=
  match (after.replies.drop before.replies.length).head? with
  | some (_, .background reply) => some reply.status
  | _ => none

section Running

variable [SwitcherProtocol] (screen : BackgroundStorage) [Ui] [UiImages]

/-- Asks the compositor for a wallpaper: whether it answers that all is well, and the compositor
behind it. -/
def applyBackground (compositor : Requests) (path : List Byte) (call : Call) :
    Access (Bool × Requests) :=
  if path = [] then .ok (false, compositor)
  else if !call.connected then .ok (false, compositor)
  else
    match SwitcherProtocol.encodeRequest (setBackgroundRequest path) with
    | none => .ok (false, compositor)
    | some message =>
      if call.received then do
        let compositor' ← handleMessage screen compositor ⟨message, call.loading⟩
        .ok (call.replied && decide (replyStatus compositor compositor' = some .ok), compositor')
      else .ok (false, compositor)

/-- The status behind a call. -/
def appliedStatus (updated : Bool) : String × StatusColor :=
  if updated then ("Background updated", .success) else ("Failed to update background", .danger)

/-- Applies the selected image, unless the last application was a moment ago. -/
def apply (s : Session) (now : BitVec 64) (call : Call) : Access Session :=
  match s.switcher.selected with
  | none => .ok s
  | some row =>
    if now - s.switcher.lastApplyMs < kApplyCooldownMs then .ok s
    else do
      let path := (s.switcher.entries row).path
      let r ← applyBackground screen s.compositor path call
      .ok
        { switcher := { s.switcher with lastApplyMs := now, status := appliedStatus r.1 }
          compositor := r.2
          acts := s.acts ++ [.applied ⟨now, path, call, r.1⟩] }

/-- An event: a selection, an application, or a message to the compositor from another program. -/
def step (s : Session) : Event → Access Session
  | .selects row => .ok { s with switcher := { s.switcher with selected := row } }
  | .applies now call => apply screen s now call
  | .message asked => do
    let compositor ← handleMessage screen s.compositor asked
    .ok { s with compositor := compositor, acts := s.acts ++ [.asked asked] }

end Running

/-! ## What the compositor gets -/

section Sent

variable [SwitcherProtocol] [UiImages]

/-- The request that reaches the compositor, if one does. -/
def sent (path : List Byte) (call : Call) : Option Asked :=
  if path = [] ∨ call.connected = false ∨ call.received = false then none
  else (SwitcherProtocol.encodeRequest (setBackgroundRequest path)).map (⟨·, call.loading⟩)

/-- The message that reaches the compositor in an act. -/
def Act.received : Act → Option Asked
  | .asked a => some a
  | .applied a => sent a.path a.call

/-- The application an act is, if it is one. -/
def Act.applied? : Act → Option Applied
  | .asked _ => none
  | .applied a => some a

/-- After success the request came through and back, and there was an image for it. Otherwise it was
lost, or there was none or no storage for it. -/
def Applied.Told (a : Applied) : Prop :=
  if a.updated then
    (sent a.path a.call).isSome = true ∧ a.call.replied = true ∧ a.call.loading.image.isSome = true
  else
    sent a.path a.call = none ∨ a.call.replied = false ∨ a.call.loading.image = none ∨
      a.call.loading.storage = none

variable {screen : BackgroundStorage} {first : Option (List Byte × WallpaperImage)}
  {messages : List Asked} {c : Requests} {path : List Byte} {call : Call}

/-- The request of the window is answered with one reply, after which the wallpaper is that of the
request if the reply says so. -/
theorem handleMessage_sent [Ui] [LawfulRects] [LawfulSwitcherProtocol] (hwidth : 25 ≤ screen.width)
    (hheight : 64 ≤ screen.height) (h : Requests.Follows screen first messages c)
    (himage : ∀ image ∈ call.loading.image, Scalable screen image) (hnul : (0 : Byte) ∉ path)
    (hpath : path ≠ []) {message : IPCMessage}
    (hencode : SwitcherProtocol.encodeRequest (setBackgroundRequest path) = some message) :
    Safe (handleMessage screen c ⟨message, call.loading⟩) fun c' =>
      Requests.Follows screen first (messages ++ [⟨message, call.loading⟩]) c' ∧
        (replyStatus c c' = some .ok → call.loading.image.isSome = true ∧
          c'.desktop.Shows screen (pictureOf ((setBackgroundRequest path).path, call.loading))) ∧
        (replyStatus c c' ≠ some .ok →
          call.loading.image = none ∨ call.loading.storage = none) := by
  obtain ⟨hrequest, hevent⟩ := LawfulSwitcherProtocol.isRequest _ _ hencode
  obtain ⟨hheader, hsize⟩ := LawfulSwitcherProtocol.size _ _ hencode
  obtain ⟨hreads, hasks⟩ := LawfulSwitcherProtocol.reads path message hnul hencode
  have hopcode : (setBackgroundRequest path).header.opcode ≠ Protocol.graphicsCompositor.opHello :=
    LawfulSwitcherProtocol.opcode_ne
  have hversion : (setBackgroundRequest path).header.version =
    Protocol.graphicsCompositor.version := rfl
  have hne : (setBackgroundRequest path).path ≠ [] := by
    have hgt := LawfulSwitcherProtocol.pathSize_gt
    have hlength := List.length_pos_iff.2 hpath
    apply List.ne_nil_of_length_pos
    unfold setBackgroundRequest
    rw [List.length_take]
    omega
  obtain ⟨c', hrun, hfollows⟩ := @handleMessage_follows _ _ _ screen _ _ c
    ⟨message, call.loading⟩ _ hwidth hheight h himage
  refine ⟨c', hrun, hfollows, ?_⟩
  -- The message is handled as a request for a background.
  have hset : handleSetBackgroundRequest screen c ⟨message, call.loading⟩ = .ok c' := by
    rw [← hrun]
    unfold handleMessage
    rw [if_neg (by simp [hevent]), if_pos hrequest]
    unfold handleRequestMessage decodeMessage
    rw [if_neg (Nat.not_lt.2 hheader)]
    dsimp only
    rw [hreads, if_neg hopcode]
    exact (if_pos rfl).symm
  unfold handleSetBackgroundRequest decodeSetBackground decodeMessage at hset
  rw [if_neg (Nat.not_lt.2 hsize)] at hset
  obtain ⟨⟨status, desktop⟩, -, hc'⟩ := ok_of_bind hset
  have hreply : c'.replies = c.replies ++ [(⟨message, call.loading⟩, .background
      ⟨⟨Protocol.graphicsCompositor.version, CompositorProtocol.opSetBackground, 0⟩, status⟩)] :=
    congrArg Requests.replies (Except.ok.inj hc').symm
  have hstatus : replyStatus c c' = some status := by
    unfold replyStatus
    rw [hreply, List.drop_left]
    rfl
  have hright := hfollows.right _ (by rw [hreply]; exact List.mem_append_right _ List.mem_cons_self)
  have hshows := hfollows.shows
  rw [hreply, lastShown_append] at hshows
  unfold Reply.Right Asked.file at hright
  dsimp only at hright
  rw [hreads, hasks, if_neg (not_not.2 hversion)] at hright
  rw [hstatus]
  rcases hright with ⟨rfl, -, hsome⟩ | ⟨rfl, hempty | hnone⟩
  · rw [if_pos (by rfl), Asked.file, hasks] at hshows
    exact ⟨fun _ => ⟨hsome, hshows⟩, fun hnot => absurd rfl hnot⟩
  · exact absurd hempty hne
  · exact ⟨fun hok => (nomatch hok), fun _ => hnone⟩

/-- The compositor follows the request, if one reaches it, and the answer is whether the wallpaper
was set. -/
theorem applyBackground_follows [Ui] [LawfulRects] [LawfulSwitcherProtocol]
    (hwidth : 25 ≤ screen.width) (hheight : 64 ≤ screen.height)
    (h : Requests.Follows screen first messages c)
    (himage : ∀ image ∈ call.loading.image, Scalable screen image) (hnul : (0 : Byte) ∉ path)
    (now : BitVec 64) :
    Safe (applyBackground screen c path call) fun r =>
      Requests.Follows screen first (messages ++ (sent path call).toList) r.2 ∧
        Applied.Told ⟨now, path, call, r.1⟩ ∧
        (r.1 = true → r.2.desktop.Shows screen
          (pictureOf ((setBackgroundRequest path).path, call.loading))) := by
  -- Without a request the compositor follows what it did, and the status says so.
  have hlost : sent path call = none →
      Requests.Follows screen first (messages ++ (sent path call).toList) c ∧
        Applied.Told ⟨now, path, call, false⟩ ∧ (false = true → c.desktop.Shows screen
          (pictureOf ((setBackgroundRequest path).path, call.loading))) := by
    intro hnone
    refine ⟨?_, .inl hnone, fun hr => (nomatch hr)⟩
    rwa [hnone, Option.toList_none, List.append_nil]
  unfold applyBackground
  by_cases hpath : path = []
  · rw [if_pos hpath]
    exact safe_ok (hlost (if_pos (.inl hpath)))
  rw [if_neg hpath]
  cases hconnected : call.connected with
  | false => exact safe_ok (hlost (if_pos (.inr (.inl hconnected))))
  | true =>
    cases hencode : SwitcherProtocol.encodeRequest (setBackgroundRequest path) with
    | none =>
      refine safe_ok (hlost ?_)
      unfold sent
      rw [hencode, Option.map_none, ite_self]
    | some message =>
      cases hreceived : call.received with
      | false => exact safe_ok (hlost (if_pos (.inr (.inr hreceived))))
      | true =>
        have hsent : sent path call = some ⟨message, call.loading⟩ := by
          unfold sent
          rw [if_neg (by simp [hpath, hconnected, hreceived]), hencode]
          rfl
        rw [hsent]
        -- The compositor answers the request; the answer may still be lost on the way back.
        refine (handleMessage_sent hwidth hheight h himage hnul hpath hencode).bind ?_
        rintro c' ⟨hfollows, hok, hnot⟩
        refine safe_ok ⟨hfollows, ?_, fun hupdated => ?_⟩
        · unfold Applied.Told
          dsimp only
          rw [hsent]
          split
          · next hupdated =>
            obtain ⟨hreplied, hstatus⟩ := Bool.and_eq_true_iff.1 hupdated
            exact ⟨rfl, hreplied, (hok (of_decide_eq_true hstatus)).1⟩
          · next hupdated =>
            cases hreplied : call.replied with
            | false => exact .inr (.inl rfl)
            | true =>
              rw [hreplied, Bool.true_and, decide_eq_true_iff] at hupdated
              exact .inr (.inr (hnot hupdated))
        · exact (hok (of_decide_eq_true (Bool.and_eq_true_iff.1 hupdated).2)).2

end Sent

/-! ## Runs -/

section Runs

variable [SwitcherProtocol] [UiImages]

/-- The calls of `apply` that came after the cooldown. -/
def Session.calls (s : Session) : List Applied := s.acts.filterMap Act.applied?

/-- The images are listed. The compositor has handled the messages of the others and the requests
that reached it, in the order in which they did. Requests are for listed images and keep the
cooldown. The status is that of the last one; if it says that the background was updated, then it
was, and the wallpaper is that image as long as nothing else comes to the compositor. -/
structure Session.Holds (screen : BackgroundStorage) (directory : Option (List DirEntry))
    (first : Option (List Byte × WallpaperImage)) (seen : List Asked) (s : Session) : Prop where
  listed : Listed directory s.switcher
  follows : Requests.Follows screen first (seen ++ s.acts.filterMap Act.received) s.compositor
  chosen : ∀ a ∈ s.calls, a.path = [] ∨ ∃ row ∈ s.switcher.rows, row.path = a.path
  spaced : (0 :: s.calls.map (·.now)).IsChain fun earlier later =>
    kApplyCooldownMs ≤ later - earlier
  last : s.switcher.lastApplyMs ∈ (0 :: s.calls.map (·.now)).getLast?
  status : s.switcher.status =
    s.calls.getLast?.elim (loadBackgrounds directory).status fun a => appliedStatus a.updated
  told : ∀ a ∈ s.calls, a.Told
  shows : ∀ a, s.acts.getLast? = some (.applied a) → a.updated = true →
    s.compositor.desktop.Shows screen (pictureOf ((setBackgroundRequest a.path).path, a.call.loading))

/-- What loading an image meets in an event. -/
def Event.image : Event → Option WallpaperImage
  | .selects _ => none
  | .applies _ call => call.loading.image
  | .message a => a.loading.image

variable {screen : BackgroundStorage} {directory : Option (List DirEntry)}
  {first : Option (List Byte × WallpaperImage)} {seen : List Asked} {s : Session}

omit [SwitcherProtocol] in
/-- An application is one more call. -/
theorem calls_applied (s : Session) (w : Switcher) (c : Requests) (a : Applied) :
    Session.calls ⟨w, c, s.acts ++ [.applied a]⟩ = s.calls ++ [a] := by
  unfold Session.calls
  rw [List.filterMap_append]
  rfl

omit [SwitcherProtocol] in
/-- A message of another program is no call. -/
theorem calls_asked (s : Session) (w : Switcher) (c : Requests) (a : Asked) :
    Session.calls ⟨w, c, s.acts ++ [.asked a]⟩ = s.calls := by
  unfold Session.calls
  rw [List.filterMap_append]
  exact List.append_nil _

/-- One more act is at most one more message. -/
theorem filterMap_received (acts : List Act) (act : Act) :
    (acts ++ [act]).filterMap Act.received = acts.filterMap Act.received ++ act.received.toList := by
  rw [List.filterMap_append]
  cases hact : act.received <;> simp [hact]

/-- Applying keeps the list and adds what it asked for to what the compositor follows. -/
theorem apply_holds [Ui] [LawfulRects] [LawfulSwitcherProtocol] (hwidth : 25 ≤ screen.width)
    (hheight : 64 ≤ screen.height) (h : s.Holds screen directory first seen) {now : BitVec 64}
    {call : Call} (himage : ∀ image ∈ call.loading.image, Scalable screen image) :
    Safe (apply screen s now call) (Session.Holds screen directory first seen) := by
  unfold apply
  cases hselected : s.switcher.selected with
  | none => exact safe_ok h
  | some row =>
  by_cases hsoon : now - s.switcher.lastApplyMs < kApplyCooldownMs
  · dsimp only
    rw [if_pos hsoon]
    exact safe_ok h
  dsimp only
  rw [if_neg hsoon]
  refine (applyBackground_follows hwidth hheight h.follows himage (h.listed.no_nul row) now).bind ?_
  rintro ⟨updated, compositor⟩ ⟨hfollows, htold, hshows⟩
  refine safe_ok ⟨?_, ?_, ?_, ?_, ?_, ?_, ?_, ?_⟩
  · exact ⟨h.listed.files, h.listed.sorted, h.listed.behind⟩
  · rw [filterMap_received, ← List.append_assoc]
    exact hfollows
  · -- The path of the call is that of the selected row.
    rw [calls_applied]
    intro a ha
    rcases List.mem_append.1 ha with hold | hnew
    · exact h.chosen a hold
    · rw [List.mem_singleton.1 hnew]
      rcases h.listed.entry row with hin | hempty
      · exact .inr ⟨_, hin, rfl⟩
      · exact .inl (congrArg BackgroundEntry.path hempty)
  · -- The cooldown has passed since the last call.
    rw [calls_applied, List.map_append, ← List.cons_append, List.isChain_append]
    refine ⟨h.spaced, .singleton now, fun earlier hearlier later hlater => ?_⟩
    have hlast := h.last
    rw [Option.mem_def] at hlast hearlier hlater
    obtain rfl := Option.some.inj hlater
    rw [Option.some.inj (hearlier.symm.trans hlast)]
    exact BitVec.not_lt.1 hsoon
  · rw [calls_applied, List.map_append, ← List.cons_append, List.getLast?_append]
    rfl
  · rw [calls_applied, List.getLast?_append]
    rfl
  · rw [calls_applied]
    intro a ha
    rcases List.mem_append.1 ha with hold | hnew
    · exact h.told a hold
    · rw [List.mem_singleton.1 hnew]
      exact htold
  · intro a ha hupdated
    rw [List.getLast?_append] at ha
    obtain rfl := Act.applied.inj (Option.some.inj ha)
    exact hshows hupdated

/-- A message of another program leaves the switcher. -/
theorem handleMessage_holds [Ui] [LawfulRects] (hwidth : 25 ≤ screen.width)
    (hheight : 64 ≤ screen.height) (h : s.Holds screen directory first seen) {asked : Asked}
    (himage : ∀ image ∈ asked.loading.image, Scalable screen image) :
    Safe (handleMessage screen s.compositor asked) fun compositor =>
      Session.Holds screen directory first seen
        { s with compositor := compositor, acts := s.acts ++ [.asked asked] } := by
  refine (handleMessage_follows hwidth hheight h.follows himage).mono fun compositor hfollows => ?_
  refine ⟨h.listed, ?_, ?_, ?_, ?_, ?_, ?_, ?_⟩
  · rw [filterMap_received, ← List.append_assoc]
    exact hfollows
  · rw [calls_asked]
    exact h.chosen
  · rw [calls_asked]
    exact h.spaced
  · rw [calls_asked]
    exact h.last
  · rw [calls_asked]
    exact h.status
  · rw [calls_asked]
    exact h.told
  · intro a ha
    rw [List.getLast?_append] at ha
    exact nomatch Option.some.inj ha

/-- Every event keeps the list, the calls and what the compositor follows. -/
theorem step_holds [Ui] [LawfulRects] [LawfulSwitcherProtocol] (hwidth : 25 ≤ screen.width)
    (hheight : 64 ≤ screen.height) (h : s.Holds screen directory first seen) {event : Event}
    (himage : ∀ image ∈ event.image, Scalable screen image) :
    Safe (step screen s event) (Session.Holds screen directory first seen) := by
  cases event with
  | selects row =>
    exact safe_ok ⟨⟨h.listed.files, h.listed.sorted, h.listed.behind⟩, h.follows, h.chosen, h.spaced,
      h.last, h.status, h.told, h.shows⟩
  | applies now call => exact apply_holds hwidth hheight h himage
  | message asked =>
    exact (handleMessage_holds hwidth hheight h himage).bind fun compositor h' => safe_ok h'

/-- From the list on, in every run of the window and of others with the compositor, none of whose
images is narrowed wrongly or overflows on this screen, what `Session.Holds` says. -/
theorem switcher_follows [Ui] [LawfulRects] [LawfulSwitcherProtocol] (hwidth : 25 ≤ screen.width)
    (hheight : 64 ≤ screen.height) (directory : Option (List DirEntry)) {compositor : Requests}
    (hcompositor : Requests.Follows screen first seen compositor) (events : List Event)
    (himages : ∀ event ∈ events, ∀ image ∈ event.image, Scalable screen image) :
    Safe (events.foldlM (step screen) ⟨loadBackgrounds directory, compositor, []⟩)
      (Session.Holds screen directory first seen) := by
  have hrun : ∀ {events : List Event} {s : Session},
      (∀ event ∈ events, ∀ image ∈ event.image, Scalable screen image) →
        s.Holds screen directory first seen →
        Safe (events.foldlM (step screen) s) (Session.Holds screen directory first seen) := by
    intro events
    induction events with
    | nil => exact fun _ h => safe_pure h
    | cons event events ih =>
      intro s himages h
      rw [List.foldlM_cons]
      exact (step_holds hwidth hheight h (himages event List.mem_cons_self)).bind fun s' hs' =>
        ih (fun e he => himages e (List.mem_cons_of_mem event he)) hs'
  have hstart : (loadBackgrounds directory).lastApplyMs = 0 := by
    cases directory <;> rfl
  refine hrun himages ⟨loadBackgrounds_listed directory, ?_, ?_, .singleton 0,
    congrArg some hstart.symm, rfl, ?_, ?_⟩
  · rwa [List.filterMap_nil, List.append_nil]
  · exact fun a ha => absurd ha List.not_mem_nil
  · exact fun a ha => absurd ha List.not_mem_nil
  · exact fun a ha => nomatch ha

end Runs

/-- The path stands behind the header, in a field of 192 bytes. -/
abbrev packedSwitcher : SwitcherProtocol where
  toCompositorProtocol := packedCompositor
  encodeRequest request := some ⟨1, 1, [BitVec.ofNat 8 request.header.version, 0,
    BitVec.ofNat 8 request.header.opcode, 0, 0, 0, 0, 0] ++ request.path ++
      List.replicate (192 - request.path.length) 0⟩
  pathSize := 192

/-- The packed layout reads back what it writes. -/
theorem packedSwitcher_lawful : @LawfulSwitcherProtocol packedSwitcher := by
  refine @LawfulSwitcherProtocol.mk packedSwitcher (by decide) (by decide) ?_ ?_ ?_
  · rintro request message hencode
    rw [← Option.some.inj hencode]
    exact ⟨show ((1 : BitVec 64) &&& 1 != 0) = true by decide,
      show (1 : BitVec 64) &&& 2 = 0 by decide⟩
  · rintro request message hencode
    rw [← Option.some.inj hencode]
    show 8 ≤ List.length (_ ++ _ ++ _) ∧ 200 ≤ List.length (_ ++ _ ++ _)
    simp only [List.length_append, List.length_cons, List.length_nil, List.length_replicate]
    omega
  · rintro path message hnul hencode
    rw [← Option.some.inj hencode]
    refine ⟨rfl, ?_⟩
    show List.takeWhile (· ≠ 0) (path.take 191 ++ List.replicate _ 0) = path.take 191
    rw [List.takeWhile_append_of_pos]
    · simp
    · intro c hc
      exact decide_eq_true fun hzero => hnul (hzero ▸ List.mem_of_mem_take hc)

/-- Two images and a folder. -/
def smallDirectory : List DirEntry :=
  [⟨ascii "b.png", .regular, by decide⟩, ⟨ascii "dir.png", .directory, by decide⟩,
    ⟨ascii "a.PNG", .regular, by decide⟩]

example : (loadBackgrounds (some smallDirectory)).rows =
    [⟨ascii "a.PNG", ascii "/bin/backgrounds/a.PNG"⟩,
      ⟨ascii "b.png", ascii "/bin/backgrounds/b.png"⟩] := by decide

/-- A call that comes through. -/
def smallCall : @Call plainImages.toUiColors :=
  @Call.mk plainImages.toUiColors true true
    (@Loading.mk plainImages.toUiColors (some whiteImage) (some fun _ => 0) none) true

/-- The second image is applied while another program asks for one too, and once more too soon. -/
def smallEvents : List (@Event plainImages.toUiColors) :=
  [@Event.selects plainImages.toUiColors (some ⟨1, by decide⟩),
    @Event.message plainImages.toUiColors (askFor "/none.png" none),
    @Event.applies plainImages.toUiColors 1000 smallCall,
    @Event.applies plainImages.toUiColors 1100 smallCall]

/-- Two programs ask for wallpapers on the smallest screen. -/
theorem switcher_follows_small :
    let compositor := @Requests.mk plainImages.toUiColors .start false []
    let start :=
      @Session.mk plainImages.toUiColors (loadBackgrounds (some smallDirectory)) compositor []
    Safe (smallEvents.foldlM (@step packedSwitcher smallScreen plainUi plainImages) start)
      (@Session.Holds packedSwitcher plainImages smallScreen (some smallDirectory) none []) := by
  refine @switcher_follows packedSwitcher plainImages smallScreen none [] plainUi plainUi_lawful
    packedSwitcher_lawful (by decide) (by decide) (some smallDirectory) _ ?_ _ ?_
  · exact @Requests.Follows.mk packedCompositor plainImages _ _ _ _ ⟨rfl, rfl⟩ rfl rfl
      fun r hr => absurd hr List.not_mem_nil
  · intro event hevent image himage
    unfold smallEvents at hevent
    simp only [List.mem_cons, List.not_mem_nil, or_false] at hevent
    rcases hevent with rfl | rfl | rfl | rfl
    · exact absurd himage (Option.not_mem_none image)
    · exact absurd himage (Option.not_mem_none image)
    · rw [← Option.some.inj himage]
      exact whiteImage_scalable
    · rw [← Option.some.inj himage]
      exact whiteImage_scalable

end IUserApps.BackgroundSwitcher
