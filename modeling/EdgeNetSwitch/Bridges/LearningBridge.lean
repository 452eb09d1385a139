import Mathlib.Data.List.Induction

/-!
# Learning bridges

A bridge learns from the frames that come in at which of its ports each station is. It may forget what it has
learned at any time, and where it does not know a station it sends a frame for it to all other ports. What is left to
say of any such bridge is where it may send a frame at all (`Egress`), and of a sequence of items, some of which are
frames, what it sends of them (`Sends`).
-/

namespace LearningBridge

variable {S P ι : Type*}

/-- The port at which a frame comes in, and the stations it is from and for. -/
@[ext] structure Frame (S P : Type*) where
  ingress : P
  source : S
  destination : S

/-- Where a station was heard last, or was known to be before the first frame. -/
def heard [DecidableEq S] (known : S → Option P) (frames : List (Frame S P)) : S → Option P :=
  frames.foldl (fun heard f s => if f.source = s then some f.ingress else heard s) known

theorem heard_concat [DecidableEq S] (known : S → Option P) (frames : List (Frame S P)) (f : Frame S P) (s : S) :
    heard known (frames ++ [f]) s = if f.source = s then some f.ingress else heard known frames s := by
  rw [heard, List.foldl_append]
  rfl

variable [DecidableEq P]

/-- Where a bridge may send a frame, when it has heard stations at these ports. -/
inductive Egress (up : List P) (broadcast : S → Prop) (heard : S → Option P) (f : Frame S P) : List P → Prop where
  /-- The station is at no port the bridge knows, or not at a single one. -/
  | flood : Egress up broadcast heard f (up.filter (· ≠ f.ingress))
  | forward (port : P) (hb : ¬ broadcast f.destination) (hheard : heard f.destination = some port) (hup : port ∈ up) :
    Egress up broadcast heard f [port]
  /-- The port of the station is down. -/
  | discard (port : P) (hb : ¬ broadcast f.destination) (hheard : heard f.destination = some port)
    (hdown : port ∉ up) : Egress up broadcast heard f []

/-- A frame goes to ports that are up, and back to where it came from only when its station was heard there. -/
theorem Egress.mem {up : List P} {broadcast : S → Prop} {heard : S → Option P} {f : Frame S P} {ports : List P}
    {port : P} (h : Egress up broadcast heard f ports) (hport : port ∈ ports) :
    port ∈ up ∧ (port = f.ingress → heard f.destination = some f.ingress) := by
  cases h with
  | flood =>
    obtain ⟨hup, hne⟩ := List.mem_filter.1 hport
    exact ⟨hup, fun heq => absurd heq (of_decide_eq_true hne)⟩
  | forward port' hb hheard hup =>
    obtain rfl := List.mem_singleton.1 hport
    refine ⟨hup, fun heq => ?_⟩
    rw [← heq]
    exact hheard
  | discard => exact absurd hport List.not_mem_nil

/-- A bridge that knows less sends as one that knows more may do. -/
theorem Egress.mono {up : List P} {broadcast : S → Prop} {heard heard' : S → Option P} {f : Frame S P}
    {ports : List P} (h : Egress up broadcast heard f ports)
    (hknows : ∀ s port, heard s = some port → heard' s = some port) : Egress up broadcast heard' f ports := by
  cases h with
  | flood => exact .flood
  | forward port hb hheard hup => exact .forward port hb (hknows _ port hheard) hup
  | discard port hb hheard hdown => exact .discard port hb (hknows _ port hheard) hdown

variable [DecidableEq S]

/-- What a bridge sends of items in this order, of which some are frames. -/
inductive Sends (up : List P) (broadcast : S → Prop) (known : S → Option P) (frame? : ι → Option (Frame S P)) :
    List ι → List (P × ι) → Prop where
  | nil : Sends up broadcast known frame? [] []
  | other {items : List ι} {sent : List (P × ι)} (x : ι) (h : Sends up broadcast known frame? items sent)
    (hx : frame? x = none) : Sends up broadcast known frame? (items ++ [x]) sent
  | frame {items : List ι} {sent : List (P × ι)} {f : Frame S P} {ports : List P} (x : ι)
    (h : Sends up broadcast known frame? items sent) (hx : frame? x = some f)
    (hports : Egress up broadcast (heard known ((items ++ [x]).filterMap frame?)) f ports) :
    Sends up broadcast known frame? (items ++ [x]) (sent ++ ports.map (·, x))

/-- What is sent was sent of a frame, to a port where it may go. -/
theorem Sends.mem {up : List P} {broadcast : S → Prop} {known : S → Option P} {frame? : ι → Option (Frame S P)}
    {items : List ι} {sent : List (P × ι)} {port : P} {x : ι} (h : Sends up broadcast known frame? items sent)
    (hsent : (port, x) ∈ sent) : ∃ before after f, items = before ++ x :: after ∧ frame? x = some f ∧ port ∈ up ∧
      (port = f.ingress → heard known ((before ++ [x]).filterMap frame?) f.destination = some f.ingress) := by
  induction h with
  | nil => exact absurd hsent List.not_mem_nil
  | other y _ _ ih =>
    obtain ⟨before, after, f, rfl, hf, hup, hback⟩ := ih hsent
    exact ⟨before, after ++ [y], f, by simp, hf, hup, hback⟩
  | @frame items sent f ports y _ hy hports ih =>
    rcases List.mem_append.1 hsent with hsent | hsent
    · obtain ⟨before, after, f, rfl, hf, hup, hback⟩ := ih hsent
      exact ⟨before, after ++ [y], f, by simp, hf, hup, hback⟩
    · obtain ⟨port', hport', heq⟩ := List.mem_map.1 hsent
      obtain ⟨rfl, rfl⟩ := Prod.mk.inj heq
      obtain ⟨hup, hback⟩ := hports.mem hport'
      exact ⟨items, [], f, rfl, hy, hup, hback⟩

end LearningBridge
