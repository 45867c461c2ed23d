import IUserApps.Runs

/-!
# Loops that answer requests

A service receives one message after another and replies to those it accepts. It ends when it cannot
receive or reply, and also when it can build no reply to a message. So as long as its queue works,
it goes on serving exactly when it can build a reply to every message that it accepts
(`along_serves_iff`).
-/

namespace IUserApps.Serving

open Runs

variable {μ ρ : Type*}

/-- Which messages a service replies to, and the reply it builds. -/
structure Service (μ ρ : Type*) where
  accepts : μ → Bool
  build : μ → Option ρ

/-- What the queue does in a turn of the loop: the message received, or `none` for a failure, and
whether a reply can be sent. -/
structure Turn (μ : Type*) where
  received : Option μ
  replied : Bool

/-- The queue does what it is asked for. -/
def Turn.Works (t : Turn μ) : Prop := t.received.isSome = true ∧ t.replied = true

/-- The loop: whether it still runs, and the replies sent, each with its message. -/
structure State (μ ρ : Type*) where
  running : Bool
  sent : List (μ × ρ)

/-- Before the first message. -/
def State.start : State μ ρ := ⟨true, []⟩

/-- The loop ends. -/
def State.ended (s : State μ ρ) : State μ ρ := { s with running := false }

/-- A turn of the loop. -/
def Service.turn (service : Service μ ρ) (s : State μ ρ) (t : Turn μ) : State μ ρ :=
  if !s.running then s
  else
    match t.received with
    | none => s.ended
    | some message =>
      if !service.accepts message then s
      else
        match service.build message with
        | none => s.ended
        | some reply =>
          if t.replied then { s with sent := s.sent ++ [(message, reply)] } else s.ended

/-- After the turn the loop still runs, and if the message was well formed it was answered. -/
def Service.Serves (service : Service μ ρ) (WellFormed : μ → Prop) (Answers : μ → ρ → Prop)
    (s : State μ ρ) (t : Turn μ) : Prop :=
  (service.turn s t).running = true ∧
    ∀ message, t.received = some message → WellFormed message →
      ∃ reply, Answers message reply ∧
        (service.turn s t).sent = s.sent ++ [(message, reply)]

/-- A reply can be built, should the message be accepted. -/
def Service.Answerable (service : Service μ ρ) (t : Turn μ) : Prop :=
  ∀ message, t.received = some message → service.accepts message = true →
    (service.build message).isSome = true

variable {service : Service μ ρ} {WellFormed : μ → Prop} {Answers : μ → ρ → Prop}

/-- One turn of a running loop. -/
theorem serves_iff (hwell : ∀ message, WellFormed message → service.accepts message = true ∧
      ∀ reply, service.build message = some reply → Answers message reply)
    {s : State μ ρ} (hs : s.running = true) {t : Turn μ} (ht : t.Works) :
    service.Serves WellFormed Answers s t ↔ service.Answerable t := by
  obtain ⟨message, hmessage⟩ := Option.isSome_iff_exists.1 ht.1
  have hturn : service.turn s t =
      if !service.accepts message then s
      else
        match service.build message with
        | none => s.ended
        | some reply => { s with sent := s.sent ++ [(message, reply)] } := by
    unfold Service.turn
    rw [hs, hmessage, ht.2]
    rfl
  unfold Service.Serves Service.Answerable
  rw [hturn, hmessage]
  constructor
  · rintro ⟨hrunning, -⟩ m hm haccepts
    obtain rfl := Option.some.inj hm
    rw [haccepts] at hrunning
    cases hb : service.build message with
    | none =>
      -- Without a reply the loop has ended.
      rw [hb] at hrunning
      exact absurd hrunning Bool.false_ne_true
    | some reply => rfl
  · intro hanswerable
    cases ha : service.accepts message with
    | false =>
      -- The message is passed over, so it is not a well formed one.
      refine ⟨hs, ?_⟩
      intro m hm hm'
      obtain rfl := Option.some.inj hm
      rw [(hwell message hm').1] at ha
      exact absurd ha (by decide)
    | true =>
      obtain ⟨reply, hreply⟩ := Option.isSome_iff_exists.1 (hanswerable message rfl ha)
      rw [hreply]
      refine ⟨hs, ?_⟩
      intro m hm hm'
      obtain rfl := Option.some.inj hm
      exact ⟨reply, (hwell message hm').2 reply hreply, rfl⟩

/-- A loop whose queue works serves along a run exactly when it can build a reply to every message
of the run that it accepts. -/
theorem along_serves_iff (hwell : ∀ message, WellFormed message → service.accepts message = true ∧
      ∀ reply, service.build message = some reply → Answers message reply)
    {s : State μ ρ} (hs : s.running = true) {ts : List (Turn μ)} (hts : ∀ t ∈ ts, t.Works) :
    Along service.turn (service.Serves WellFormed Answers) s ts ↔
      ∀ t ∈ ts, service.Answerable t := by
  induction ts generalizing s with
  | nil => simp
  | cons t ts ih =>
    have hfirst := serves_iff hwell hs (hts t List.mem_cons_self)
    have hrest : ∀ t' ∈ ts, t'.Works := fun t' ht' => hts t' (List.mem_cons_of_mem t ht')
    rw [along_cons, List.forall_mem_cons]
    constructor
    · rintro ⟨hserves, halong⟩
      exact ⟨hfirst.1 hserves, (ih hserves.1 hrest).1 halong⟩
    · rintro ⟨hanswerable, hall⟩
      have hserves := hfirst.2 hanswerable
      exact ⟨hserves, (ih hserves.1 hrest).2 hall⟩

end IUserApps.Serving
