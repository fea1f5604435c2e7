import Postmortem.Proofs.Seat
import Postmortem.Proofs.Text.Octets
import Postmortem.Proofs.Text.Trimming

/-!
# What a host is told about a failure

A failure is handed to a program in C as a text that ends at its first null octet. No document has
one, whatever kind and message the failure has, so it always arrives whole.

* `Bridge.Payload`: any kind and any message; the payloads of failures are some of them.
* `Bridge.terminated?` and `Bridge.ofTerminated?`: texts that end at a null octet.
* `Bridge.payload_intact`: what arrives, and for how long.
-/

namespace Postmortem

namespace Bridge

/-- What a host is told about a failure. -/
structure Payload where
  kind : String
  message : String
  deriving DecidableEq, Repr

namespace Payload

def document (p : Payload) : Json :=
  .record
    [("ok", .bool false), ("error", .record [("kind", .text p.kind), ("message", .text p.message)])]

def text (p : Payload) : String := p.document.write

end Payload

def Failure.toPayload (f : Failure) : Payload := ⟨f.kind, f.message⟩

theorem Failure.payload_eq (f : Failure) : f.payload = f.toPayload.text := rfl

/-- The octets of a text with a null octet behind them. A text with a null octet in it would end
too early, so it is not handed out. -/
def terminated? (text : String) : Option Bytes :=
  if 0 ∈ Text.octets text then none else some (Text.octets text ++ [0]).toArray

/-- The text in front of the first null octet. -/
def ofTerminated? (bytes : Bytes) : Option String := String.fromUTF8? ⟨bytes.takeWhile (· ≠ 0)⟩

/-- What a host in C gets where it asks for the last failure. -/
def Reply.handed? : Reply → Option Bytes
  | .failure payload => payload.bind terminated?
  | _ => none

theorem Reply.handed?_failure (text : String) :
    (Reply.failure (some text)).handed? = terminated? text := rfl

/-- These bytes end at a null octet, their only one, and the document in front of it is about this
payload. -/
structure Payload.Arrives (p : Payload) (bytes : Bytes) : Prop where
  ended : ∃ octets, bytes.toList = octets ++ [0] ∧ 0 ∉ octets
  shown : ∃ text, ofTerminated? bytes = some text ∧
    Json.read text = some (.record
      [("ok", .bool false),
       ("error", .record [("kind", .text p.kind), ("message", .text p.message)])])

/-! ## Texts that end at a null octet -/

section

variable {text : String} (whole : 0 ∉ Text.octets text)

include whole

theorem terminated?_of_whole : terminated? text = some (Text.octets text ++ [0]).toArray :=
  if_neg whole

theorem ofTerminated?_of_whole : ofTerminated? (Text.octets text ++ [0]).toArray = some text := by
  have front : ((Text.octets text ++ [0]).takeWhile (· ≠ 0)) = Text.octets text := by
    rw [Text.takeWhile_ne_append whole]
    exact List.append_nil _
  rw [ofTerminated?, List.takeWhile_toArray, front, Text.fromUTF8?_eq_some_iff]

end

/-! ## Payloads -/

namespace Payload

theorem read_text (p : Payload) : Json.read p.text = some p.document := Json.read_write _

theorem whole_text (p : Payload) : 0 ∉ Text.octets p.text := by
  intro null
  have printable := Json.printable_write p.document '\x00' (Text.zero_mem_octets_iff.mp null)
  exact absurd printable (by decide)

theorem document_inj {p q : Payload} (same : p.document = q.document) : p = q := by
  obtain ⟨kind, message⟩ := p
  obtain ⟨kind', message'⟩ := q
  simpa [Payload.document, Json.record, Json.text] using same

theorem text_inj {p q : Payload} (same : p.text = q.text) : p = q := by
  have read := read_text p
  rw [same, read_text q] at read
  exact document_inj (Option.some.inj read).symm

theorem terminated?_text (p : Payload) :
    terminated? p.text = some (Text.octets p.text ++ [0]).toArray :=
  terminated?_of_whole (whole_text p)

theorem arrives (p : Payload) : p.Arrives (Text.octets p.text ++ [0]).toArray where
  ended := ⟨_, rfl, whole_text p⟩
  shown := ⟨p.text, ofTerminated?_of_whole (whole_text p), read_text p⟩

theorem eq_of_terminated? {p q : Payload} (same : terminated? p.text = terminated? q.text) :
    p = q := by
  rw [terminated?_text p, terminated?_text q] at same
  have octets : Text.octets p.text ++ [0] = Text.octets q.text ++ [0] :=
    congrArg Array.toList (Option.some.inj same)
  exact text_inj (Text.octets_inj.mp (List.append_cancel_right octets))

end Payload

/-! ## Bridges -/

variable {b : Bridge} {f : Failure}

theorem handed?_lastFailure (remembered : b.lastFailure = some f) (host : Host) :
    (b.answer host .lastFailure).1.handed? = terminated? f.toPayload.text := by
  have told : (b.answer host .lastFailure).1 = .failure (some f.payload) := by
    rw [answer, remembered]
    rfl
  rw [told, f.payload_eq]
  exact Reply.handed?_failure _

/-- A failure is remembered until another one is. -/
theorem lastFailure_of_refused {e : Step} (refused : b.refusal? e = some f) {later : List Step}
    (quiet : (b.after e).refusals later = []) :
    ((b.after e).replay later).lastFailure = some f := by
  rw [replay_lastFailure, quiet, (b.after_spec e).1, refused]
  rfl

/-- **A failure reaches a host in C whole.** Whatever its kind and its message are, the document
about it can be handed out, ends at its only null octet and is read as exactly that kind and that
message, so no two payloads arrive alike. Once a bridge has refused settings, a host that asks gets
the document about that, however often it asks and whatever else happens, until others are
refused. -/
theorem payload_intact :
    (∀ p : Payload, ∃ bytes, terminated? p.text = some bytes ∧ p.Arrives bytes) ∧
      (∀ p q : Payload, terminated? p.text = terminated? q.text → p = q) ∧
      ∀ (b : Bridge) (e : Step) (f : Failure), b.refusal? e = some f →
        ∃ bytes, (Payload.mk f.kind f.message).Arrives bytes ∧
          ∀ later, (b.after e).refusals later = [] → ∀ host,
            let d := (b.after e).replay later
            (d.answer host .lastFailure).1.handed? = some bytes ∧
              (d.answer host .lastFailure).2 = d := by
  refine ⟨fun p => ⟨_, p.terminated?_text, p.arrives⟩, fun p q => Payload.eq_of_terminated?, ?_⟩
  intro b e f refused
  refine ⟨_, f.toPayload.arrives, ?_⟩
  intro later quiet host d
  have remembered : d.lastFailure = some f := lastFailure_of_refused refused quiet
  refine ⟨?_, rfl⟩
  rw [handed?_lastFailure remembered host]
  exact f.toPayload.terminated?_text

/-- A null character in a message does not cut it short, and a failure is still there for a host
that has asked before and has stopped the bridge. -/
theorem payload_intact_nullCharacter :
    let machine : Machine :=
      ⟨1, ⟨⟨0, 0⟩, #[]⟩, ⟨0, 0, 0, 0, 0, 0, 0⟩, [], [], none, false, none⟩
    let h : Host := { machine := fun _ => machine }
    let odd : Payload := ⟨"\"\\", "b\x00c\n"⟩
    let occupied : Payload :=
      ⟨"already_installed", "a coordinator is already installed on this thread"⟩
    let b := ({} : Bridge).after (.asked h (.start none))
    let d := (b.after (.asked h (.start none))).replay [.asked h .lastFailure, .asked h .stop]
    odd.text =
        "\x7b\"ok\":false,\"error\":\x7b\"kind\":\"\\\"\\\\\",\"message\":\"b\\u0000c\\n\"\x7d\x7d" ∧
      (∃ bytes, terminated? odd.text = some bytes ∧ odd.Arrives bytes) ∧
      b.refusal? (.asked h (.start none)) = some .occupied ∧
      ∃ bytes, occupied.Arrives bytes ∧ (d.answer h .lastFailure).1.handed? = some bytes := by
  intro machine h odd occupied b d
  obtain ⟨whole, _, kept⟩ := payload_intact
  have refused : b.refusal? (.asked h (.start none)) = some .occupied := rfl
  obtain ⟨bytes, arrived, handed⟩ := kept b _ _ refused
  exact ⟨by decide +kernel, whole odd, refused, bytes, arrived, (handed _ rfl h).1⟩

end Bridge

end Postmortem
