/-
  A client stream and the server call at its other end.

  The two are machines of their own. The HTTP/2 stream between them is assumed to carry DATA in
  order, cut anywhere and perhaps not to the end: what one end has heard is a prefix of the bodies
  that the other has submitted. Nothing else ties the two runs together.

  Proved:
  * `responses_in_order`: `on_message` gets a prefix of what `WriteMessage` accepted.
  * `requests_in_order`: `ReadMessage` gets a prefix of what `StreamSend` accepted, unless a
    deadline fires: after that `DeliverRead` may drop a message and hand on the next.
-/
import Urpc.Channel.Feed
import Urpc.Channel.SendQueue
import Urpc.Codec.Rebuild
import Urpc.Server.Reads
import Urpc.Server.SendQueue

namespace Urpc.Server

open Cxx FrameDecoder
open Channel (Stream hear messagesOf anyStep callAndStream)

/-- Whatever its limit, a decoder gives back a prefix of the messages. -/
theorem consume_messages_sub {max : Nat} {w : Bytes} {ms : List Bytes}
    (hlen : ∀ m ∈ ms, m.length < 2 ^ 32) (hw : w <+: encodeFrames ms) :
    ((new max).consume w).2.messages <+: ms := by
  have hfit : ∀ {ns : List Bytes}, (∀ m ∈ ns, m.length < 2 ^ 32) → Fits (2 ^ 32) ns :=
    fun h m hm => ⟨h m hm, (h m hm).le⟩
  have hdec := (Rebuilds.fresh max).consume w
  have hframes : encodeFrames ((new max).consume w).2.messages <+: encodeFrames ms :=
    List.IsPrefix.trans ⟨_, hdec.bytes.symm⟩ hw
  -- a decoder with a higher limit gives all these frames back
  have hall := (consume_of_isPrefix (hfit hlen) hframes).2
  rwa [consume_encodeFrames _ _ (hfit hdec.sized.messages)] at hall

/-- The decoder rejects nothing; one header block, no deadline. -/
def steady (max : Nat) (c : Conf) : Label → Bool
  | .event (.headers ..) => !c.st.opened
  | .event (.data chunk _) => ((new max).consume (c.st.recv ++ chunk)).1.ok
  | .event (.deadline _) => false
  | _ => true

section

variable {o : Channel.Options} {d : Channel.Conf} {r : Nat → Bytes} {sid id : Nat} {st : Stream}
  {cfg : Config} {c : Conf} {ms : List Bytes}

/-- **Responses arrive in order**, on a stream that is not over, from a call that is open. -/
theorem responses_in_order
    (hd : Channel.machine.Hist hear anyStep (Channel.fresh o) (fun _ => []) d r)
    (hid : d.st.streamBySid sid = some id) (hst : d.st.streams id = some st)
    (hlive : st.completed = false) (htold : st.events.onMessage = true)
    (hc : (machine cfg).Reach staysOpen fresh c) (hctx : c.st.ctx ≠ some .unary)
    (hlen : ∀ m ∈ c.st.accepted, m.length < 2 ^ 32)
    (hwire : r sid <+: (bodies c.st.h2.subs).flatten) :
    messagesOf id d.st.log <+: c.st.accepted := by
  have hsent : (bodies c.st.h2.subs).flatten <+: encodeFrames c.st.accepted := by
    have hstream : (Writer.of c).stream ≠ some false := by
      rcases hx : c.st.ctx with _ | _ | first <;> simp_all [Writer.of, writer, Ctx.isStream]
    have hcontent := (open_account hc hstream).1
    have hframes : c.st.accepted.map encodeFrame = (Writer.of c).accepted.map encodeFrame := rfl
    rw [encodeFrames, List.flatMap_def, hframes, ← hcontent, List.append_assoc,
      List.flatten_append]
    exact List.prefix_append _ _
  obtain ⟨-, max, taken, hdec, heq⟩ := (Channel.hears_fed hd).2.2.stream sid id st hid hst hlive
  have heq : taken = messagesOf id d.st.log := heq htold
  rw [← heq]
  exact (Reader.decoded_sub hdec).trans (consume_messages_sub hlen (hwire.trans hsent))

/-- **Requests arrive in order**, whatever the handler does. -/
theorem requests_in_order (hd : Channel.machine.Reach anyStep (Channel.fresh o) d)
    (hst : d.st.streams id = some st) (hlive : st.completed = false)
    (hms : (Channel.desk d.st d.frames).takenOf id = ms.map encodeFrame)
    (hlen : ∀ m ∈ ms, m.length < 2 ^ 32)
    (hc : (machine cfg).Reach (fun c l => steady cfg.maxReceiveSize c l) fresh c)
    (hwire : c.st.recv <+: (bodies (d.st.senders st.sid).subs).flatten) :
    delivered (reads c.st.log) <+: ms := by
  have hsent : (bodies (d.st.senders st.sid).subs).flatten <+: encodeFrames ms := by
    have hbox := (Channel.reach_outbox Channel.Outbox.counted_kept
      (fun c l _ => Channel.Env.any_allows c l) hd).2.boxes _ (.live hst hlive)
    rw [encodeFrames, List.flatMap_def, ← hms]
    refine ⟨(st.outQueue.map Channel.OutMsg.framed).flatten, ?_⟩
    rw [← List.flatten_append]
    -- the empty body of `StreamCloseSend` adds no byte
    rcases hbox.exact with h | ⟨-, before, after, h, h'⟩
    · exact congrArg List.flatten h
    · exact (congrArg List.flatten h').trans ((by simp : _ = _).trans (congrArg List.flatten h.symm))
  obtain ⟨taken, h⟩ : ∃ taken, Reading cfg c taken := by
    refine hc.inv (I := fun c => ∃ taken, Reading cfg c taken) ⟨[], reading_fresh cfg⟩ ?_
    rintro c l d ⟨taken, h⟩ hok hs
    refine (reading_step h ?_ ?_ ?_ hs).1
    · unfold oneBlock
      split
      · simpa [steady] using hok
      · trivial
    · rintro timer rfl
      cases hok
    · rintro chunk e rfl
      exact hok
  refine h.received.given.trans (h.received.sub.trans ?_)
  exact consume_messages_sub hlen (hwire.trans hsent)

end

/-- A client that has sent one message and heard one. -/
theorem client_demo : ∃ (d : Channel.Conf) (st : Stream),
    Channel.machine.run anyStep (Channel.fresh Channel.demo) (callAndStream ++
      [.event (.streamSend 2 (encodeFrame [7]) none false), .event (.task none),
        .event (.data 3 (encodeFrame [7]))]) = some d ∧
    d.st.streamBySid 3 = some 2 ∧ d.st.streams 2 = some st ∧ st.completed = false ∧
    st.events.onMessage = true ∧ messagesOf 2 d.st.log = [[7]] ∧
    (Channel.desk d.st d.frames).takenOf 2 = [encodeFrame [7]] ∧
    bodies (d.st.senders st.sid).subs = [encodeFrame [7]] :=
  ⟨_, _, rfl, rfl, rfl, rfl, rfl, rfl, rfl, rfl⟩

/-- A response is written and heard. -/
theorem responses_in_order_one :
    ∃ (d : Channel.Conf) (c : Conf), messagesOf 2 d.st.log = [[7]] ∧
      messagesOf 2 d.st.log <+: c.st.accepted := by
  obtain ⟨d, st, hd, hid, hst, hlive, htold, hlog, -⟩ := client_demo
  obtain ⟨c, hc, hctx, hacc, hsubs⟩ : ∃ c, (machine demo).run staysOpen fresh (openBidi ++
      [.event (.op (.writeMessage [7] none)), .resume]) = some c ∧
      c.st.ctx = some (.stream none) ∧ c.st.accepted = [[7]] ∧
      bodies c.st.h2.subs = [encodeFrame [7]] := ⟨_, rfl, rfl, rfl, rfl⟩
  exact ⟨d, c, hlog, responses_in_order (Resume.System.hist_of_run hear (fun _ => []) _ hd) hid hst
    hlive htold (Resume.System.reach_of_run _ _ _ hc) (by simp [hctx]) (by simp [hacc])
    (hsubs ▸ List.prefix_refl _)⟩

/-- A request is sent and read. -/
theorem requests_in_order_one :
    ∃ c : Conf, delivered (reads c.st.log) = [[7]] ∧ delivered (reads c.st.log) <+: [[7]] := by
  obtain ⟨d, st, hd, -, hst, hlive, -, -, hms, hsubs⟩ := client_demo
  obtain ⟨c, hc, hread, hrecv⟩ : ∃ c, (machine demo).run
      (fun c l => steady demo.maxReceiveSize c l) fresh (openBidi ++
        [.event (.op (.readMessage 1)), .event (.data (encodeFrame [7]) false), .resume]) = some c ∧
      delivered (reads c.st.log) = [[7]] ∧ c.st.recv = encodeFrame [7] := ⟨_, rfl, rfl, rfl⟩
  exact ⟨c, hread, requests_in_order (Resume.System.reach_of_run _ _ _ hd) hst hlive hms (by simp)
    (Resume.System.reach_of_run _ _ _ hc) (by simp [hsubs, hrecv])⟩

end Urpc.Server
