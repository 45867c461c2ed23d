import IUserApps.Compositor.Scene
import IUserApps.Compositor.Wallpaper
import IUserApps.FileBrowser.Entries
import IUserApps.FileBrowser.Opening
import IUserApps.Services.Daemon

/-!
# The wallpaper that is shown

`load_background` fits an image into the screen's storage and blurs the part under the taskbar. It is
called at the start, for the default image and then for those of a directory until one can be
loaded, and for the requests that come in (`background.cpp`, `protocol.cpp` and `handleMessage` of
`main.cpp`). What the libraries give in a call is the call's input: the image, if the path holds one,
the storage, if it can be allocated, and the arrays of the blur.

After any messages the wallpaper is that of the last request that was answered with success, or else
that of the start, and its blur is under the taskbar if one is (`background_follows`). The screen has
pixels, so its check for none is left out, and so are the messages of events, which change none of
this. A request's path is read up to its NUL.
-/

namespace IUserApps.Compositor

open Checked Services
open FileBrowser (DirEntry appendText)

/-- `DesktopBackground`, with the path that it was loaded from. -/
structure Desktop where
  background : Background
  currentPath : List Byte

/-- Before the first image. -/
def Desktop.start : Desktop := ⟨⟨none, false, none⟩, []⟩

/-- What a call of `load_background` meets. -/
structure Loading [UiColors] where
  image : Option WallpaperImage
  storage : Option (ℕ → BitVec 32)
  arrays : Option BlurArrays

section Screen

variable (screen : BackgroundStorage)

/-- The pixels of the screen's storage. -/
def wallpaperOf (pixels : ℕ → BitVec 32) : DesktopBackground where
  width := screen.width
  height := screen.height
  pixels := pixels
  width_lt := by have := (screen_lt screen).1; omega
  height_lt := by have := (screen_lt screen).2; omega

/-- The storage has the screen's size. -/
def Desktop.hasStorage (desktop : Desktop) : Bool :=
  desktop.background.wallpaper.any fun w => w.width = screen.width ∧ w.height = screen.height

/-- Allocates storage of the screen's size where there is none, and says whether there is some. -/
def ensureBackgroundStorage (storage : Option (ℕ → BitVec 32)) (desktop : Desktop) :
    Bool × Desktop :=
  if desktop.hasStorage screen then (true, desktop)
  else
    (storage.isSome,
      ⟨⟨storage.map (wallpaperOf screen), false, desktop.background.barBlur⟩, []⟩)

variable [Ui] [UiImages]

/-- Reads a wallpaper from a file and scales it to the screen. -/
def loadBackground (desktop : Desktop) (path : List Byte) (i : Loading) : Access (Bool × Desktop) :=
  let ensured := ensureBackgroundStorage screen i.storage desktop
  if path = [] then .ok (false, desktop)
  else if !ensured.1 then .ok (false, ensured.2)
  else
    match i.image with
    | none => .ok (false, ensured.2)
    | some image => do
      let pixels ← scaleBackgroundImage screen image
      let barBlur ← blurBarBackdrop (wallpaperOf screen pixels) i.arrays
      .ok (true, ⟨⟨some (wallpaperOf screen pixels), true, barBlur⟩, path.take 191⟩)

/-! ## The start -/

/-- The directory of the wallpapers. -/
def kBackgroundDirectory : List Byte := ascii "/bin/backgrounds"
/-- The wallpaper that is tried first. -/
def kDefaultBackground : List Byte := ascii "/bin/backgrounds/instantos_2.png"

/-- The name ends in `.png`. -/
def hasPngSuffix (name : List Byte) : Bool :=
  match name.reverse with
  | g :: n :: p :: dot :: _ =>
    dot = 0x2e && (p = 0x70 || p = 0x50) && (n = 0x6e || n = 0x4e) && (g = 0x67 || g = 0x47)
  | _ => false

/-- The path of a file of the directory. -/
def backgroundPath (name : List Byte) : List Byte :=
  appendText 192 (appendText 192 (appendText 192 [] kBackgroundDirectory) (ascii "/")) name

/-- The files that are tried after the default image. -/
def candidates (entries : List (DirEntry × Loading)) : List (List Byte × Loading) :=
  (entries.filter fun e => e.1.type = .regular && hasPngSuffix e.1.name).map fun e =>
    (backgroundPath e.1.name, e.2)

/-- Loads the first of these images that can be loaded. -/
def loadFirst (desktop : Desktop) : List (List Byte × Loading) → Access (Bool × Desktop)
  | [] => .ok (false, desktop)
  | (path, i) :: rest => do
    let r ← loadBackground screen desktop path i
    if r.1 then .ok r else loadFirst r.2 rest

/-- The directory cannot be read when there are no entries. -/
def loadFirstAvailableBackground (first : Loading) (entries : Option (List (DirEntry × Loading))) :
    Access (Bool × Desktop) :=
  loadFirst screen .start ((kDefaultBackground, first) :: (entries.elim [] candidates))

end Screen

/-! ## The requests -/

/-- The compositor's part of the protocol. -/
class CompositorProtocol extends Protocol where
  /-- `IPC_MESSAGE_EVENT`. -/
  event : BitVec 64
  opSetBackground : ℕ
  setBackgroundRequestSize : ℕ
  /-- `path` of a `SetBackgroundRequest`, up to its NUL. -/
  path : List Byte → List Byte
  /-- The compositor's name. -/
  name : String

/-- A request for a wallpaper, by its path. -/
structure SetBackgroundRequest where
  header : MessageHeader
  path : List Byte

/-- The answer to a request for a wallpaper. -/
structure SetBackgroundReply where
  header : MessageHeader
  status : Status
deriving DecidableEq, Repr

/-- A reply of the compositor. -/
inductive Reply
  | hello (reply : HelloReply)
  | background (reply : SetBackgroundReply)
deriving DecidableEq, Repr

/-- A message, and what loading its image meets. -/
structure Asked [UiColors] where
  message : IPCMessage
  loading : Loading

/-- The wallpaper, whether the whole scene is to be drawn again, and the replies so far, each with
what it answers. -/
structure Requests [UiColors] where
  desktop : Desktop
  sceneDirty : Bool
  replies : List (Asked × Reply)

section Handling

variable [CompositorProtocol] (screen : BackgroundStorage) [Ui] [UiImages]

/-- `build_hello_reply`, which is that of the other services but for the name. -/
def buildHelloReply (message : IPCMessage) : Option HelloReply :=
  Daemon.buildHelloReply CompositorProtocol.name message

/-- The request a message holds, if it is long enough for one. -/
def decodeSetBackground (message : IPCMessage) : Option SetBackgroundRequest :=
  decodeMessage CompositorProtocol.setBackgroundRequestSize
    (fun data => ⟨Protocol.header data, CompositorProtocol.path data⟩) message

/-- The status of the reply to a request, and the wallpaper behind it. -/
def backgroundStatus (desktop : Desktop) (request : SetBackgroundRequest) (i : Loading) :
    Access (Status × Desktop) :=
  if request.header.version ≠ Protocol.graphicsCompositor.version then .ok (.badVersion, desktop)
  else if request.header.opcode ≠ CompositorProtocol.opSetBackground then .ok (.badOpcode, desktop)
  else do
    let r ← loadBackground screen desktop request.path i
    .ok (if r.1 then .ok else .badPayload, r.2)

/-- `build_background_reply` and the reply it is sent in. -/
def handleSetBackgroundRequest (s : Requests) (asked : Asked) : Access Requests :=
  match decodeSetBackground asked.message with
  | none => .ok s
  | some request => do
    let r ← backgroundStatus screen s.desktop request asked.loading
    let reply := ⟨⟨Protocol.graphicsCompositor.version, CompositorProtocol.opSetBackground, 0⟩, r.1⟩
    .ok ⟨r.2, s.sceneDirty || decide (r.1 = .ok), s.replies ++ [(asked, .background reply)]⟩

/-- Answers a hello with the compositor's name. -/
def handleHelloRequest (s : Requests) (asked : Asked) : Requests :=
  match buildHelloReply asked.message with
  | none => s
  | some reply => { s with replies := s.replies ++ [(asked, .hello reply)] }

/-- Hands a message to the handler of its opcode. -/
def handleRequestMessage (s : Requests) (asked : Asked) : Access Requests :=
  match decodeMessage Protocol.headerSize Protocol.header asked.message with
  | none => .ok s
  | some header =>
    if header.opcode = Protocol.graphicsCompositor.opHello then .ok (handleHelloRequest s asked)
    else if header.opcode = CompositorProtocol.opSetBackground then
      handleSetBackgroundRequest screen s asked
    else .ok s

/-- An event is handled elsewhere. -/
def handleMessage (s : Requests) (asked : Asked) : Access Requests :=
  if asked.message.flags &&& CompositorProtocol.event != 0 then .ok s
  else if asked.message.isRequest then handleRequestMessage screen s asked
  else .ok s

end Handling

/-! ## An image on the screen -/

section Images

variable (screen : BackgroundStorage) [Ui] [UiImages]

omit [Ui] in
/-- No size of the image is narrowed to a wrong one, and no index of it overflows. -/
def Scalable (image : WallpaperImage) : Prop :=
  NarrowingHarmless screen image ∧
    ((fitted screen image).1 = 0 ∨ (fitted screen image).2 = 0 ∨
      lastRead image (fitted screen image).1 (fitted screen image).2 < 2^31)

omit [Ui] in
/-- The fitted picture is shown, in the middle of the screen, unless it has no pixel. -/
def ShowsFitted (image : WallpaperImage) (pixels : ℕ → BitVec 32) : Prop :=
  if (fitted screen image).1 = 0 ∨ (fitted screen image).2 = 0 then
    pixels = UiImages.gradient screen.width screen.height
  else ∃ left top, Centred screen.width (fitted screen image).1 left ∧
    Centred screen.height (fitted screen image).2 top ∧
    ShowsPicture screen image pixels left top (fitted screen image).1 (fitted screen image).2

/-- The image of a path is shown, and its blur if one is stored. -/
structure Pictured (picture : List Byte × WallpaperImage) (desktop : Desktop) : Prop where
  ready : desktop.background.ready = true
  path : desktop.currentPath = picture.1.take 191
  pixels : ∃ pixels, ShowsFitted screen picture.2 pixels ∧
    desktop.background.wallpaper = some (wallpaperOf screen pixels) ∧
    ∀ blur ∈ desktop.background.barBlur, ShowsBlur (wallpaperOf screen pixels) blur

/-- The image of a path is shown, or none is. -/
def Desktop.Shows (shown : Option (List Byte × WallpaperImage)) (desktop : Desktop) : Prop :=
  shown.elim (desktop.background.ready = false ∧ desktop.background.barBlur = none)
    fun picture => Pictured screen picture desktop

/-- A call of `load_background` that succeeds. -/
def Loads (desktop : Desktop) (path : List Byte) (i : Loading) : Prop :=
  path ≠ [] ∧ (desktop.hasStorage screen = true ∨ i.storage.isSome = true) ∧ i.image.isSome = true

variable {screen} {desktop : Desktop} {shown : Option (List Byte × WallpaperImage)}
  {path : List Byte} {i : Loading}

omit [Ui] in
/-- An image that can be scaled is scaled, and the pixels show it fitted to the screen. -/
theorem Scalable.scales {image : WallpaperImage} (h : Scalable screen image) :
    ∃ pixels, scaleBackgroundImage screen image = .ok pixels ∧ ShowsFitted screen image pixels := by
  obtain ⟨hharmless, hread⟩ := h
  have hdrawn := drawn_of_harmless screen image hharmless
  split at hdrawn
  · next hzero =>
    have hgradient : scaleBackgroundImage screen image =
        .ok (UiImages.gradient screen.width screen.height) := by
      unfold scaleBackgroundImage
      rw [hdrawn]
    exact ⟨_, hgradient, (if_pos hzero).mpr rfl⟩
  · next hpixels =>
    have hin := isFitted_fitted screen image
    obtain ⟨pixels, hok, hshows⟩ := draws_picture screen image hdrawn hin.1 hin.2.1
      ((or_assoc.2 hread).resolve_left hpixels)
    refine ⟨pixels, hok, (if_neg hpixels).mpr ⟨_, _, ?_, ?_, hshows⟩⟩
    · exact centred_drawOffset hin.1 (screen_lt screen).1
    · exact centred_drawOffset hin.2.1 (screen_lt screen).2

omit [UiImages] in
/-- The blur that is stored is the wallpaper's. -/
theorem blurBarBackdrop_shows [LawfulRects] (hwidth : 25 ≤ screen.width)
    (hheight : 64 ≤ screen.height) (pixels : ℕ → BitVec 32) (arrays : Option BlurArrays) :
    Safe (blurBarBackdrop (wallpaperOf screen pixels) arrays)
      fun barBlur => ∀ blur ∈ barBlur, ShowsBlur (wallpaperOf screen pixels) blur := by
  cases arrays with
  | none =>
    have hnone : blurBarBackdrop (wallpaperOf screen pixels) none = .ok none := by
      unfold blurBarBackdrop
      dsimp only
      split <;> rfl
    rw [hnone]
    exact safe_ok fun blur hblur => absurd hblur (Option.not_mem_none blur)
  | some arrays =>
    have hpixels := screen.pixels_lt
    have hrows : (sourceRows screen.height - 1) * screen.width < 2^31 := by
      have h : (sourceRows screen.height - 1) * screen.width ≤ screen.height * screen.width :=
        Nat.mul_le_mul_right _ (by unfold sourceRows; omega)
      rw [Nat.mul_comm screen.height] at h
      omega
    have hword : (screen.height - 1) * screen.width < 2^32 := by
      have h : (screen.height - 1) * screen.width ≤ screen.height * screen.width :=
        Nat.mul_le_mul_right _ (Nat.sub_le _ _)
      rw [Nat.mul_comm screen.height] at h
      omega
    obtain ⟨stored, hok, hshows⟩ := blursRight_of_fits hwidth hheight hrows hword
      (wallpaperOf screen pixels) arrays rfl rfl
    rw [hok]
    exact safe_ok fun blur hblur => Option.some.inj hblur ▸ hshows

/-! ## Loading -/

omit [Ui] in
/-- A wallpaper that shows a picture has storage of the screen's size. -/
theorem Pictured.hasStorage {picture : List Byte × WallpaperImage}
    (h : Pictured screen picture desktop) : desktop.hasStorage screen = true := by
  obtain ⟨pixels, -, hwallpaper, -⟩ := h.pixels
  unfold Desktop.hasStorage
  rw [hwallpaper]
  simp [wallpaperOf]

omit [Ui] [UiImages] in
/-- A wallpaper of the screen's size has its storage. -/
theorem hasStorage_wallpaperOf (pixels : ℕ → BitVec 32) (ready : Bool) (blur : Option BarBlur)
    (path : List Byte) :
    Desktop.hasStorage screen ⟨⟨some (wallpaperOf screen pixels), ready, blur⟩, path⟩ = true := by
  simp [Desktop.hasStorage, wallpaperOf]

omit [Ui] in
/-- The storage is there afterwards if it was or can be allocated, and what is shown stays. -/
theorem ensureBackgroundStorage_shows (h : desktop.Shows screen shown)
    (storage : Option (ℕ → BitVec 32)) :
    let ensured := ensureBackgroundStorage screen storage desktop
    ensured.1 = (desktop.hasStorage screen || storage.isSome) ∧
      ensured.2.hasStorage screen = ensured.1 ∧ ensured.2.Shows screen shown := by
  unfold ensureBackgroundStorage
  cases hstorage : desktop.hasStorage screen with
  | true => exact ⟨rfl, hstorage, h⟩
  | false =>
    cases shown with
    | some picture => exact absurd h.hasStorage (by rw [hstorage]; exact Bool.false_ne_true)
    | none =>
      refine ⟨rfl, ?_, rfl, h.2⟩
      cases storage with
      | none => rfl
      | some pixels => exact hasStorage_wallpaperOf pixels _ _ _

/-- Loading succeeds exactly where the file can be loaded; then the wallpaper shows its image, and
otherwise what it showed before. -/
theorem loadBackground_shows [LawfulRects] (hwidth : 25 ≤ screen.width)
    (hheight : 64 ≤ screen.height) (h : desktop.Shows screen shown)
    (himage : ∀ image ∈ i.image, Scalable screen image) :
    Safe (loadBackground screen desktop path i) fun r =>
      (r.1 = true ↔ Loads screen desktop path i) ∧
      (r.1 = true → ∃ image, i.image = some image ∧ r.2.Shows screen (some (path, image))) ∧
      (r.1 = false → r.2.Shows screen shown ∧
        (path ≠ [] → r.2.hasStorage screen = (desktop.hasStorage screen || i.storage.isSome))) := by
  obtain ⟨hensured, hstorage, hstays⟩ := ensureBackgroundStorage_shows h i.storage
  unfold loadBackground
  dsimp only
  by_cases hpath : path = []
  · rw [if_pos hpath]
    exact safe_ok ⟨iff_of_false Bool.false_ne_true fun hl => hl.1 hpath, fun hr => (nomatch hr),
      fun _ => ⟨h, fun hne => absurd hpath hne⟩⟩
  rw [if_neg hpath]
  rw [hensured] at hstorage
  have hiff : Loads screen desktop path i ↔
      (desktop.hasStorage screen || i.storage.isSome) = true ∧ i.image.isSome = true := by
    unfold Loads
    rw [Bool.or_eq_true]
    exact and_iff_right hpath
  rw [hensured]
  -- What was shown stays until the image has been read and scaled.
  cases hready : desktop.hasStorage screen || i.storage.isSome with
  | false =>
    rw [hready] at hiff hstorage
    exact safe_ok ⟨iff_of_false Bool.false_ne_true fun hl => (nomatch (hiff.1 hl).1),
      fun hr => (nomatch hr), fun _ => ⟨hstays, fun _ => hstorage⟩⟩
  | true =>
    rw [hready] at hiff hstorage
    cases hloaded : i.image with
    | none =>
      rw [hloaded] at hiff
      exact safe_ok ⟨iff_of_false Bool.false_ne_true fun hl => (nomatch (hiff.1 hl).2),
        fun hr => (nomatch hr), fun _ => ⟨hstays, fun _ => hstorage⟩⟩
    | some image =>
      rw [hloaded] at hiff
      obtain ⟨pixels, hscales, hfitted⟩ := (himage image hloaded).scales
      obtain ⟨barBlur, hblur, hblurs⟩ := blurBarBackdrop_shows hwidth hheight pixels i.arrays
      refine ⟨(true, ⟨⟨some (wallpaperOf screen pixels), true, barBlur⟩, path.take 191⟩), ?_, ?_⟩
      · show (scaleBackgroundImage screen image >>= _) = _
        rw [hscales, ok_bind, hblur]
        rfl
      · exact ⟨iff_of_true rfl (hiff.2 ⟨rfl, rfl⟩),
          fun _ => ⟨image, rfl, rfl, rfl, pixels, hfitted, rfl, hblurs⟩, fun hr => (nomatch hr)⟩

/-- The picture that a path has. -/
def pictureOf (file : List Byte × Loading) : Option (List Byte × WallpaperImage) :=
  file.2.image.map (file.1, ·)

/-- The files that are tried with storage: without any, those from the first allocation on. -/
def tried (storage : Bool) (files : List (List Byte × Loading)) : List (List Byte × Loading) :=
  if storage then files else files.dropWhile fun file => file.2.storage.isNone

/-- The first file of the list that can be loaded is shown. -/
theorem loadFirst_shows [LawfulRects] (hwidth : 25 ≤ screen.width) (hheight : 64 ≤ screen.height)
    {files : List (List Byte × Loading)} (hpaths : ∀ file ∈ files, file.1 ≠ [])
    (himages : ∀ file ∈ files, ∀ image ∈ file.2.image, Scalable screen image)
    (h : desktop.Shows screen none) :
    Safe (loadFirst screen desktop files) fun r =>
      r.2.Shows screen ((tried (desktop.hasStorage screen) files).findSome? pictureOf) := by
  induction files generalizing desktop with
  | nil =>
    have hnil : tried (desktop.hasStorage screen) [] = [] := by
      unfold tried
      split <;> rfl
    rw [hnil]
    exact safe_ok h
  | cons file files ih =>
    obtain ⟨path, i⟩ := file
    have hpath : path ≠ [] := hpaths _ List.mem_cons_self
    unfold loadFirst
    refine (loadBackground_shows hwidth hheight h (himages _ List.mem_cons_self)).bind ?_
    rintro ⟨loaded, desktop'⟩ ⟨hiff, htrue, hfalse⟩
    cases loaded with
    | true =>
      obtain ⟨image, himage, hshows⟩ := htrue rfl
      obtain ⟨-, hstorage, -⟩ := hiff.1 rfl
      -- A file that is shown had storage, so it is the first that is tried.
      have hfirst : tried (desktop.hasStorage screen) ((path, i) :: files) = (path, i) :: files := by
        unfold tried
        rcases hstorage with hs | hs
        · rw [hs]
          rfl
        · simp [Option.isNone_eq_false_iff.2 hs]
      rw [hfirst, List.findSome?_cons]
      unfold pictureOf
      rw [himage]
      exact safe_ok hshows
    | false =>
      obtain ⟨hshows, hstorage⟩ := hfalse rfl
      have hnot : ¬Loads screen desktop path i := fun hl => nomatch hiff.2 hl
      -- It has no image, or was not tried for lack of storage.
      have hrest : (tried (desktop.hasStorage screen) ((path, i) :: files)).findSome? pictureOf =
          (tried (desktop'.hasStorage screen) files).findSome? pictureOf := by
        rw [hstorage hpath]
        unfold Loads at hnot
        unfold tried pictureOf
        cases hs : desktop.hasStorage screen <;> cases hi : i.storage <;>
          cases himage : i.image <;> simp_all
      rw [hrest]
      exact ih (fun file hfile => hpaths file (List.mem_cons_of_mem _ hfile))
        (fun file hfile => himages file (List.mem_cons_of_mem _ hfile)) hshows

omit [Ui] [UiImages] in
/-- The path of a file in the directory is not empty. -/
theorem backgroundPath_ne (name : List Byte) : backgroundPath name ≠ [] := by
  have hstart : appendText 192 (appendText 192 [] kBackgroundDirectory) (ascii "/") =
      ascii "/bin/backgrounds/" := by decide
  unfold backgroundPath
  rw [hstart]
  exact List.append_ne_nil_of_left_ne_nil (by decide) _

end Images

/-! ## Answering -/

section Answers

variable [CompositorProtocol] [Ui] [UiImages]

/-- The messages that get a reply: requests of the two opcodes that are not cut short. -/
def answered (message : IPCMessage) : Bool :=
  message.flags &&& CompositorProtocol.event == 0 && message.isRequest &&
    decide (Protocol.headerSize ≤ message.data.length) &&
    if (Protocol.header message.data).opcode = Protocol.graphicsCompositor.opHello then
      decide (Protocol.graphicsCompositor.helloRequestSize ≤ message.data.length)
    else
      decide ((Protocol.header message.data).opcode = CompositorProtocol.opSetBackground ∧
        CompositorProtocol.setBackgroundRequestSize ≤ message.data.length)

/-- The wallpaper was changed. -/
def Reply.changed : Reply → Bool
  | .hello _ => false
  | .background reply => decide (reply.status = .ok)

omit [Ui] in
/-- The path that is asked for, and what loading it meets. -/
def Asked.file (asked : Asked) : List Byte × Loading :=
  (CompositorProtocol.path asked.message.data, asked.loading)

omit [Ui] in
/-- What the status of a reply says of the request: of a version other than the compositor's, one
that was loaded, or one that has no path, no image or no storage. -/
def Reply.Right (asked : Asked) : Reply → Prop
  | .hello reply => reply.status =
      if (Protocol.header asked.message.data).version ≠ Protocol.graphicsCompositor.version then
        .badVersion else .ok
  | .background reply =>
    if (Protocol.header asked.message.data).version ≠ Protocol.graphicsCompositor.version then
      reply.status = .badVersion
    else reply.status = .ok ∧ asked.file.1 ≠ [] ∧ asked.loading.image.isSome = true ∨
      reply.status = .badPayload ∧
        (asked.file.1 = [] ∨ asked.loading.image = none ∨ asked.loading.storage = none)

omit [Ui] in
/-- The picture of the last request that changed the wallpaper. -/
def lastShown (first : Option (List Byte × WallpaperImage)) (replies : List (Asked × Reply)) :
    Option (List Byte × WallpaperImage) :=
  ((replies.filter fun r => r.2.changed).getLast?).elim first fun r => pictureOf r.1.file

/-- What holds after some messages. -/
structure Requests.Follows (screen : BackgroundStorage) (first : Option (List Byte × WallpaperImage))
    (messages : List Asked) (s : Requests) : Prop where
  shows : s.desktop.Shows screen (lastShown first s.replies)
  dirty : s.sceneDirty = s.replies.any fun r => r.2.changed
  replied : s.replies.map (·.1) = messages.filter fun asked => answered asked.message
  right : ∀ r ∈ s.replies, r.2.Right r.1

variable {screen : BackgroundStorage} {first : Option (List Byte × WallpaperImage)}
  {messages : List Asked} {s : Requests} {asked : Asked}

omit [Ui] in
/-- One more reply shows its own picture if it changed the wallpaper. -/
theorem lastShown_append (replies : List (Asked × Reply)) (r : Asked × Reply) :
    lastShown first (replies ++ [r]) =
      if r.2.changed then pictureOf r.1.file else lastShown first replies := by
  unfold lastShown
  rw [List.filter_append]
  split
  · next h => simp [h]
  · next h => simp [h]

omit [Ui] in
/-- A message without a reply. -/
theorem Requests.Follows.skip (h : Requests.Follows screen first messages s)
    (hnot : answered asked.message = false) :
    Requests.Follows screen first (messages ++ [asked]) s := by
  refine ⟨h.shows, h.dirty, ?_, h.right⟩
  rw [List.filter_append, h.replied]
  simp [hnot]

omit [Ui] in
/-- A message with its reply. -/
theorem Requests.Follows.reply (h : Requests.Follows screen first messages s)
    (hanswered : answered asked.message = true) {reply : Reply}
    (hright : reply.Right asked) {desktop : Desktop}
    (hshows : desktop.Shows screen (lastShown first (s.replies ++ [(asked, reply)]))) :
    Requests.Follows screen first (messages ++ [asked])
      ⟨desktop, s.sceneDirty || reply.changed, s.replies ++ [(asked, reply)]⟩ := by
  refine ⟨hshows, ?_, ?_, ?_⟩
  · rw [h.dirty, List.any_append]
    simp
  · rw [List.map_append, h.replied, List.filter_append]
    simp [hanswered]
  · intro r hr
    rcases List.mem_append.1 hr with hold | hnew
    · exact h.right r hold
    · rw [List.mem_singleton.1 hnew]
      exact hright

omit [Ui] in
/-- A hello is answered and leaves the wallpaper. -/
theorem handleHelloRequest_follows (h : Requests.Follows screen first messages s)
    (hreads : answered asked.message =
      decide (Protocol.graphicsCompositor.helloRequestSize ≤ asked.message.data.length))
    (hhello : (Protocol.header asked.message.data).opcode = Protocol.graphicsCompositor.opHello) :
    Requests.Follows screen first (messages ++ [asked]) (handleHelloRequest s asked) := by
  unfold handleHelloRequest
  by_cases hsize : asked.message.data.length < Protocol.graphicsCompositor.helloRequestSize
  · have hbuild : buildHelloReply asked.message = none := by
      unfold buildHelloReply Daemon.buildHelloReply decodeMessage
      dsimp only
      rw [if_pos hsize]
      rfl
    rw [hbuild]
    exact h.skip (hreads.trans (decide_eq_false (Nat.not_le.2 hsize)))
  · obtain ⟨reply, hbuild, hstatus⟩ : ∃ reply, buildHelloReply asked.message = some reply ∧
        (Reply.hello reply).Right asked := by
      unfold buildHelloReply Daemon.buildHelloReply decodeMessage
      dsimp only
      rw [if_neg hsize]
      refine ⟨_, rfl, ?_⟩
      simp [Reply.Right, hhello]
    have hanswered := hreads.trans (decide_eq_true (Nat.le_of_not_lt hsize))
    have hshows : s.desktop.Shows screen (lastShown first (s.replies ++ [(asked, .hello reply)])) := by
      rw [lastShown_append]
      exact h.shows
    have hreply := h.reply hanswered hstatus hshows
    rw [hbuild]
    rwa [show (Reply.hello reply).changed = false from rfl, Bool.or_false] at hreply

/-- The status is that of the request, and the wallpaper is changed when it says so. -/
theorem backgroundStatus_right [LawfulRects] (hwidth : 25 ≤ screen.width)
    (hheight : 64 ≤ screen.height) (h : Requests.Follows screen first messages s)
    (himage : ∀ image ∈ asked.loading.image, Scalable screen image)
    (hopcode : (Protocol.header asked.message.data).opcode = CompositorProtocol.opSetBackground)
    (header : MessageHeader) :
    Safe (backgroundStatus screen s.desktop ⟨Protocol.header asked.message.data, asked.file.1⟩
      asked.loading) fun r =>
        (Reply.background ⟨header, r.1⟩).Right asked ∧
          r.2.Shows screen
            (lastShown first (s.replies ++ [(asked, .background ⟨header, r.1⟩)])) := by
  unfold backgroundStatus
  simp only [lastShown_append]
  by_cases hversion : (Protocol.header asked.message.data).version ≠
      Protocol.graphicsCompositor.version
  · rw [if_pos hversion]
    refine safe_ok ⟨?_, h.shows⟩
    simp [Reply.Right, hversion]
  · rw [if_neg hversion, if_neg (not_not.2 hopcode)]
    have hloads := @loadBackground_shows screen _ _ s.desktop _ asked.file.1 asked.loading _ hwidth
      hheight h.shows himage
    refine hloads.bind ?_
    rintro ⟨loaded, desktop⟩ ⟨hiff, htrue, hfalse⟩
    -- The version is right, so the reply must say whether the wallpaper was set.
    have hright : ∀ status, (Reply.background ⟨header, status⟩).Right asked ↔
        status = .ok ∧ asked.file.1 ≠ [] ∧ asked.loading.image.isSome = true ∨
          status = .badPayload ∧ (asked.file.1 = [] ∨ asked.loading.image = none ∨
            asked.loading.storage = none) := by
      intro status
      unfold Reply.Right
      dsimp only
      rw [if_neg hversion]
    cases loaded with
    | true =>
      obtain ⟨image, himage, hshows⟩ := htrue rfl
      obtain ⟨hpath, -, hsome⟩ := hiff.1 rfl
      have hpicture : pictureOf asked.file = some (asked.file.1, image) := by
        unfold pictureOf
        rw [show asked.file.2.image = some image from himage]
        rfl
      refine safe_ok ⟨(hright _).2 (.inl ⟨rfl, hpath, hsome⟩), ?_⟩
      simpa [Reply.changed, hpicture] using hshows
    | false =>
      have hnot : ¬Loads screen s.desktop asked.file.1 asked.loading := fun hl => nomatch hiff.2 hl
      refine safe_ok ⟨(hright _).2 (.inr ⟨rfl, ?_⟩), ?_⟩
      · unfold Loads at hnot
        rw [← Option.not_isSome_iff_eq_none, ← Option.not_isSome_iff_eq_none]
        tauto
      · simpa [Reply.changed] using (hfalse rfl).1

/-- A request for a wallpaper is answered with what came of it, and the wallpaper is the last one
set. -/
theorem handleSetBackgroundRequest_follows [LawfulRects] (hwidth : 25 ≤ screen.width)
    (hheight : 64 ≤ screen.height) (h : Requests.Follows screen first messages s)
    (himage : ∀ image ∈ asked.loading.image, Scalable screen image)
    (hreads : answered asked.message =
      decide (CompositorProtocol.setBackgroundRequestSize ≤ asked.message.data.length))
    (hopcode : (Protocol.header asked.message.data).opcode = CompositorProtocol.opSetBackground) :
    Safe (handleSetBackgroundRequest screen s asked)
      (Requests.Follows screen first (messages ++ [asked])) := by
  unfold handleSetBackgroundRequest
  by_cases hsize : asked.message.data.length < CompositorProtocol.setBackgroundRequestSize
  · have hdecode : decodeSetBackground asked.message = none := if_pos hsize
    rw [hdecode]
    exact safe_ok (h.skip (hreads.trans (decide_eq_false (Nat.not_le.2 hsize))))
  · have hdecode : decodeSetBackground asked.message =
        some ⟨Protocol.header asked.message.data, asked.file.1⟩ := if_neg hsize
    have hanswered := hreads.trans (decide_eq_true (Nat.le_of_not_lt hsize))
    rw [hdecode]
    refine (backgroundStatus_right hwidth hheight h himage hopcode
      ⟨Protocol.graphicsCompositor.version, CompositorProtocol.opSetBackground, 0⟩).bind ?_
    rintro ⟨status, desktop⟩ ⟨hright, hshows⟩
    exact safe_ok (h.reply hanswered hright hshows)

/-- Each message leaves the wallpaper at the last one set and the replies at what came of each. -/
theorem handleMessage_follows [LawfulRects] (hwidth : 25 ≤ screen.width)
    (hheight : 64 ≤ screen.height) (h : Requests.Follows screen first messages s)
    (himage : ∀ image ∈ asked.loading.image, Scalable screen image) :
    Safe (handleMessage screen s asked) (Requests.Follows screen first (messages ++ [asked])) := by
  unfold handleMessage
  cases hevent : asked.message.flags &&& CompositorProtocol.event == 0 with
  | false =>
    rw [if_pos (by rw [bne, hevent]; rfl)]
    exact safe_ok (h.skip (by unfold answered; rw [hevent]; rfl))
  | true =>
  rw [if_neg (by rw [bne, hevent]; exact Bool.false_ne_true)]
  cases hrequest : asked.message.isRequest with
  | false => exact safe_ok (h.skip (by simp [answered, hrequest]))
  | true =>
    rw [if_pos rfl]
    unfold handleRequestMessage decodeMessage
    by_cases hheader : asked.message.data.length < Protocol.headerSize
    · rw [if_pos hheader]
      exact safe_ok (h.skip (by simp [answered, hheader]))
    rw [if_neg hheader]
    dsimp only
    have hsize := Nat.le_of_not_lt hheader
    by_cases hhello :
        (Protocol.header asked.message.data).opcode = Protocol.graphicsCompositor.opHello
    · rw [if_pos hhello]
      refine safe_ok (handleHelloRequest_follows h ?_ hhello)
      unfold answered
      rw [hevent]
      simp [hrequest, hsize, hhello]
    rw [if_neg hhello]
    by_cases hset : (Protocol.header asked.message.data).opcode = CompositorProtocol.opSetBackground
    · rw [if_pos hset]
      refine handleSetBackgroundRequest_follows hwidth hheight h himage ?_ hset
      rw [hset] at hhello
      unfold answered
      rw [hevent]
      simp [hrequest, hsize, hhello, hset]
    · rw [if_neg hset]
      exact safe_ok (h.skip (by simp [answered, hhello, hset]))

/-- After the start and any messages, none of whose images is narrowed wrongly or overflows on this
screen: the wallpaper is that of the last request that was answered with success, or else the first
image of the start that could be loaded, and the blur under the taskbar, if one is stored, is that
of this wallpaper. Requests that are not cut short are answered once each, in their order, with the
status that they deserve, and the scene is drawn again if one was answered with success. -/
theorem background_follows [LawfulRects] (hwidth : 25 ≤ screen.width) (hheight : 64 ≤ screen.height)
    (default : Loading) (entries : Option (List (DirEntry × Loading))) (messages : List Asked)
    (hdefault : ∀ image ∈ default.image, Scalable screen image)
    (hentries : ∀ list ∈ entries, ∀ e ∈ list, ∀ image ∈ e.2.image, Scalable screen image)
    (hmessages : ∀ asked ∈ messages, ∀ image ∈ asked.loading.image, Scalable screen image) :
    Safe (loadFirstAvailableBackground screen default entries >>= fun r =>
        messages.foldlM (handleMessage screen) ⟨r.2, false, []⟩)
      (Requests.Follows screen ((tried false ((kDefaultBackground, default) ::
        entries.elim [] candidates)).findSome? pictureOf) messages) := by
  have hrun : ∀ {first : Option (List Byte × WallpaperImage)} {seen rest : List Asked}
      {s : Requests}, (∀ asked ∈ rest, ∀ image ∈ asked.loading.image, Scalable screen image) →
        Requests.Follows screen first seen s →
        Safe (rest.foldlM (handleMessage screen) s) (Requests.Follows screen first (seen ++ rest)) := by
    intro first seen rest s hrest h
    induction rest generalizing seen s with
    | nil => exact safe_pure (by rwa [List.append_nil])
    | cons asked rest ih =>
      rw [List.foldlM_cons]
      refine (handleMessage_follows hwidth hheight h (hrest asked List.mem_cons_self)).bind ?_
      intro s' hs'
      have htail := ih (fun a ha => hrest a (List.mem_cons_of_mem asked ha)) hs'
      rwa [List.append_assoc, List.singleton_append] at htail
  refine Safe.bind (loadFirst_shows hwidth hheight ?_ ?_ ⟨rfl, rfl⟩) fun r hr => ?_
  · rintro file hfile
    rcases List.mem_cons.1 hfile with rfl | hfile
    · exact List.cons_ne_nil _ _
    · cases entries with
      | none => exact absurd hfile List.not_mem_nil
      | some list =>
        obtain ⟨e, -, rfl⟩ := List.mem_map.1 hfile
        exact backgroundPath_ne _
  · rintro file hfile
    rcases List.mem_cons.1 hfile with rfl | hfile
    · exact hdefault
    · cases entries with
      | none => exact absurd hfile List.not_mem_nil
      | some list =>
        obtain ⟨e, he, rfl⟩ := List.mem_map.1 hfile
        exact hentries list rfl e (List.mem_of_mem_filter he)
  · exact @hrun _ [] messages _ hmessages ⟨hr, rfl, rfl, fun r hr => absurd hr List.not_mem_nil⟩

end Answers

/-- The protocol with a header of eight bytes, and the path behind it. -/
abbrev packedCompositor : CompositorProtocol where
  request := 1
  headerSize := 8
  header data := ⟨(data.getD 0 0).toNat, (data.getD 2 0).toNat, 0⟩
  graphicsCompositor := ⟨1, 1, 8⟩
  serviceNameSize := 32
  event := 2
  opSetBackground := 2
  setBackgroundRequestSize := 200
  path data := (data.drop 8).takeWhile (· ≠ 0)
  name := "graphics.compositor"

/-- A side of one pixel is an `int`. -/
theorem one_lt_size : 1 < 2^31 := by decide

/-- A white image of one pixel. -/
def whiteImage : @WallpaperImage plainImages.toUiColors :=
  @WallpaperImage.mk plainImages.toUiColors 1 1 (fun _ => (0xFFFFFFFF : BitVec 32))
    Nat.one_pos Nat.one_pos one_lt_size one_lt_size

/-- The smallest screen, 64 pixels each way. -/
def smallScreen : BackgroundStorage := ⟨64, 64, by decide, by decide, by decide⟩

/-- The white image can be scaled to the smallest screen. -/
theorem whiteImage_scalable : @Scalable smallScreen plainImages whiteImage :=
  ⟨.inl (by decide), .inr (.inr (by decide))⟩

/-- A request for this path. -/
def askFor (path : String) (image : Option (@WallpaperImage plainImages.toUiColors)) :
    @Asked plainImages.toUiColors :=
  @Asked.mk plainImages.toUiColors
    ⟨1, 1, [1, 0, 2, 0, 0, 0, 0, 0] ++ ascii path ++ List.replicate 192 0⟩
    (@Loading.mk plainImages.toUiColors image none none)

/-- The default image cannot be loaded; then a request is for an image and another for none. -/
theorem background_follows_white :
    let messages := [askFor "/white.png" (some whiteImage), askFor "/none.png" none]
    let missing := @Loading.mk plainImages.toUiColors none (some fun _ => 0) none
    Safe (@loadFirstAvailableBackground smallScreen plainUi plainImages missing none >>= fun r =>
        messages.foldlM (@handleMessage packedCompositor smallScreen plainUi plainImages)
          (@Requests.mk plainImages.toUiColors r.2 false []))
      (@Requests.Follows packedCompositor plainImages smallScreen none messages) := by
  refine @background_follows packedCompositor plainUi plainImages smallScreen plainUi_lawful
    (by decide) (by decide) (@Loading.mk plainImages.toUiColors none (some fun _ => 0) none) none _
    (fun image h => nomatch h) (fun list h => nomatch h) ?_
  intro asked hasked image himage
  rcases List.mem_cons.1 hasked with rfl | hasked
  · rw [← Option.some.inj himage]
    exact whiteImage_scalable
  · rw [List.mem_singleton.1 hasked] at himage
    exact nomatch himage

end IUserApps.Compositor
