/-
  Streams that receive more than one header block.

  nghttp2 takes a second HEADERS frame of a request as its trailers and refuses pseudo-header
  fields in it, so `OnHeadersComplete` finds no `:path` and answers `bad request headers`
  whatever the call has sent so far (`Writer.Again`). The grammar of responses does not survive
  that. What is kept is `Orderly`: how the call's flags, its context and the waiting frames
  belong together.

  Proved: `writer_step_or_again`, `reach_orderly` (the invariant rule for such runs),
  `views_step_or_again` (the same for the request side).
-/
import Urpc.Server.Grammar
import Urpc.Server.Reader

namespace Urpc.Server

open Cxx Writer

/-- A later header block has no `:path`. -/
def trailersPlain (c : Conf) : Label → Prop
  | .event (.headers fields _) => c.st.opened = true → find fields ":path" = none
  | _ => True

instance (c : Conf) : (l : Label) → Decidable (trailersPlain c l)
  | .event (.headers fields _) =>
      inferInstanceAs (Decidable (c.st.opened = true → find fields ":path" = none))
  | .event (.data ..) | .event (.deadline _) | .event .pump | .event .connectionLost
  | .event .streamClose | .event (.credit _) | .event .consumed | .event (.op _)
  | .resume => .isTrue trivial

namespace Writer

/-- What a later header block does. -/
inductive Again (v : Writer) : Writer → Prop where
  | answered : (∀ k, v.call = some k → k.responded = true) → Again v v
  | unknown : v.opened = true → v.call = none →
      Again v { v with h2 := v.h2.sendHeaders (trailersOnlyFields badRequestHeaders) true }
  | refused {k : WriteSide} : v.opened = true → v.call = some k → k.responded = false →
      Again v { v with
        call := some { k with responded := true }
        h2 := v.h2.sendHeaders (trailersOnlyFields badRequestHeaders) true }

/-- The flags, the context and the waiting frames belong together. -/
structure Orderly (v : Writer) : Prop where
  dispatched : Dispatched v
  flying : Flying Sender.aloft v
  turns : Turns v

variable {t : Trigger} {v w : Writer}

theorem Sound.orderly (h : Sound v) : Orderly v := ⟨h.dispatched, h.flying, h.turns⟩

theorem orderly_step (h : Orderly v) (hs : Step t v w) : Orderly w where
  dispatched := dispatched_step h.dispatched hs
  flying := flying_step tally_aloft h.dispatched h.flying
    (fun _ _ _ _ => Sender.sendData_aloft _ _ _ _) hs
  turns := turns_step h.dispatched h.flying h.turns hs

/-- A count of bodies survives a later header block. -/
theorem flying_again {m : Sender (Option CbId) → Nat} (hm : Tally m) (h : Flying m v)
    (ha : Again v w) : Flying m w := by
  cases ha with
  | answered => exact h
  | unknown => exact h.mono (hm.headers _ _ _) (Nat.le_refl _) rfl id
  | refused _ hc => exact h.mono (hm.headers _ _ _) (Nat.le_refl _) (by simp [hc]) id

theorem dispatched_again (hd : Dispatched v) (ha : Again v w) : Dispatched w := by
  cases ha with
  | answered | unknown => exact hd
  | refused _ hc =>
      unfold Dispatched at hd ⊢
      simpa [hc] using hd

theorem orderly_again (h : Orderly v) (ha : Again v w) : Orderly w := by
  refine ⟨dispatched_again h.dispatched ha, flying_again tally_aloft h.flying ha, ?_⟩
  have ht := h.turns
  cases ha with
  | answered | unknown => exact ⟨ht.fresh, ht.one, ht.turn⟩
  | refused _ hc =>
      have hk := ht.turn _ hc
      refine ⟨ht.fresh, ht.one, ?_⟩
      rintro _ ⟨⟩
      exact ⟨fun h => ⟨rfl, (hk.responder h).2⟩, hk.pumper, hk.busy, hk.sent,
        fun h => ⟨rfl, (hk.deferred h).2⟩⟩

end Writer

theorem onHeadersComplete_trailers {cfg : Config} {s : State} {fields : HeaderMap} {e : Bool}
    (h : find fields ":path" = none) :
    onHeadersComplete cfg s fields e = (trailersOnly s badRequestHeaders, []) := by
  unfold onHeadersComplete
  rw [h]
  split <;> simp_all

theorem trailersOnly_again {s : State} {fs : List Frame} (ho : s.opened = true) :
    Again (writer s fs) (writer (trailersOnly s badRequestHeaders) fs) := by
  unfold trailersOnly
  split
  · next k hc =>
      have hw : (writer s fs).call = some k.toWriteSide := congrArg (Option.map _) hc
      split
      · next hr =>
          refine .answered fun k' hk' => ?_
          rw [hw] at hk'
          cases hk'
          exact hr
      · next hr => exact .refused ho hw (by simpa using hr)
  · next hc => exact .unknown ho (congrArg (Option.map _) hc)

/-- What a later header block does to the reads: the call may have been answered. -/
inductive Reader.Again (v : Reader) : Reader → Prop where
  | same : Again v v
  | refused {k : Asked} : v.call = some k → k.responded = false →
      Again v { v with call := some { k with responded := true } }

theorem trailersOnly_reader_again {s : State} (st : Status) :
    Reader.Again (reader s) (reader (trailersOnly s st)) := by
  unfold trailersOnly
  split
  · next k hc =>
      split
      · exact .same
      · next hr => exact .refused (Reader.reader_call hc) (by simpa [Call.asked] using hr)
  · exact .same

/-- The same step seen from both sides. -/
theorem views_step_or_again {cfg : Config} {c d : Conf} {l : Label} (hd : Dispatched (.of c))
    (hl : trailersPlain c l) (h : (machine cfg).step c l = some d) :
    (∃ t, trigger c l = some t ∧ Step t (.of c) (.of d) ∧
      Reader.Step cfg.maxReceiveSize t (reader c.st) (reader d.st)) ∨
    ((∃ fields e, l = .event (.headers fields e) ∧ c.st.opened = true ∧ c.frames = []) ∧
      Again (.of c) (.of d) ∧ Reader.Again (reader c.st) (reader d.st)) := by
  by_cases hone : oneBlock c l
  · obtain ⟨t, ht, hw⟩ := writer_step hd hone h
    obtain ⟨t', ht', hr⟩ := reader_step hd hone h
    obtain rfl : t = t' := Option.some.inj (ht.symm.trans ht')
    exact .inl ⟨t, ht, hw, hr⟩
  · right
    cases l with
    | resume => exact absurd trivial hone
    | event e =>
        cases e with
        | headers fields e =>
            have ho : c.st.opened = true := by simpa [oneBlock] using hone
            obtain ⟨hen, s, gs, hfire, rfl⟩ := Resume.System.step_event h
            have hfire : fire cfg (.headers fields e) c.st = some (s, gs) := hfire
            have hsame : ({ c.st with opened := true } : State) = c.st := by rw [← ho]
            simp only [fire] at hfire
            split at hfire
            · cases hfire
            · rw [onHeadersComplete_trailers (hl ho), hsame] at hfire
              cases hfire
              exact ⟨⟨fields, e, rfl, ho, (Resume.System.enabled_base rfl hen).1⟩,
                trailersOnly_again ho, trailersOnly_reader_again _⟩
        | _ => exact absurd trivial hone

/-- Every step is one of the rules, or a later header block. -/
theorem writer_step_or_again {cfg : Config} {c d : Conf} {l : Label} (hd : Dispatched (.of c))
    (hl : trailersPlain c l) (h : (machine cfg).step c l = some d) :
    (∃ t, trigger c l = some t ∧ Step t (.of c) (.of d)) ∨ Again (.of c) (.of d) := by
  rcases views_step_or_again hd hl h with ⟨t, ht, hw, -⟩ | ⟨-, ha, -⟩
  · exact .inl ⟨t, ht, hw⟩
  · exact .inr ha

/-- Invariants of the writer along every run: one may use `Orderly`. -/
theorem reach_orderly {cfg : Config} {ok : Conf → Label → Prop} {I : Writer → Prop} {b d : Conf}
    (hplain : ∀ c l, ok c l → trailersPlain c l) (hb : Orderly (.of b)) (h0 : I (.of b))
    (hstep : ∀ c l t w, ok c l → trigger c l = some t → Orderly (.of c) → I (.of c) →
      Step t (.of c) w → I w)
    (hagain : ∀ v w, Orderly v → I v → Again v w → I w)
    (h : (machine cfg).Reach ok b d) : Orderly (.of d) ∧ I (.of d) := by
  refine h.inv (I := fun c => Orderly (.of c) ∧ I (.of c)) ⟨hb, h0⟩ ?_
  rintro c l e ⟨ho, hi⟩ hok hce
  rcases writer_step_or_again ho.dispatched (hplain c l hok) hce with ⟨t, ht, hs⟩ | ha
  · exact ⟨orderly_step ho hs, hstep c l t _ hok ht ho hi hs⟩
  · exact ⟨orderly_again ho ha, hagain _ _ ho hi ha⟩

end Urpc.Server
