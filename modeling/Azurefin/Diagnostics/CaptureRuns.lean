import Azurefin.Diagnostics.Capture

/-!
# What a capture leaves behind

At every moment of every run, wherever signals come and whatever fails, the script writes only to
media that bear the mark, on a partition of an external disk, and never more than the six files with
their limits, `logs_marked`. A run without a failure and with one signal at most leaves the media mounted
exactly when the signal came between the first `mount` and `mounted=true`, and with them their loop
device, which goes with the unmount, `media_left_iff`.
-/

namespace Azurefin.Capture

variable {m : Marker} {s t s₀ : State} {l : List Action} {a : Action} {candidate : Text}
  {todo : List Text}

/-! ## The mark -/

/-- The script went through these actions for the candidate. -/
def Since (m : Marker) (s₀ : State) (candidate : Text) (actions l : List Action) : Prop :=
  ∃ before v todo, l = before ++ actions ∧ Trace.run (next m) before s₀ = some v ∧
    v.step = .probing candidate todo

theorem Since.snoc {actions : List Action} (h : Since m s₀ candidate actions l) (a : Action) :
    Since m s₀ candidate (actions ++ [a]) (l ++ [a]) := by
  obtain ⟨before, v, todo, rfl, hrun, hstep⟩ := h
  exact ⟨before, v, todo, List.append_assoc _ _ _, hrun, hstep⟩

/-- The actions up to the first mount -/
def mountActions (uuid device : Text) : List Action :=
  [.block true, .uuid uuid, .attach (some device), .mount true]

/-- The media were identified, mounted and found to bear the mark before they became writable. -/
def Marked (m : Marker) (s₀ : State) (l : List Action) (media : Media) : Prop :=
  ∃ uuid token after before, stripNewlines uuid = m.uuid ∧ stripNewlines token = m.token ∧
    l = before ++ after ∧
    Since m s₀ media.candidate (mountActions uuid media.device ++ [Action.token token, .remount true]) before

theorem Marked.snoc {media : Media} (h : Marked m s₀ l media) (a : Action) :
    Marked m s₀ (l ++ [a]) media := by
  obtain ⟨uuid, token, after, before, huuid, htoken, rfl, hsince⟩ := h
  exact ⟨uuid, token, after ++ [a], before, huuid, htoken, List.append_assoc _ _ _, hsince⟩

/-- The candidates that the script may still come to -/
def Step.candidates : Step → List Text
  | .probing candidate todo | .identifying candidate todo | .attaching candidate todo
  | .mounting candidate _ todo => candidate :: todo
  | .reading todo | .remounting todo | .refusing todo | .detaching todo => todo
  | _ => []

/-- The script looks for media. -/
def Step.searching : Step → Bool
  | .probing .. | .identifying .. | .attaching .. | .mounting .. | .reading _ | .remounting _
  | .refusing _ | .detaching _ => true
  | _ => false

/-- Marked media are mounted. -/
def Ready (m : Marker) (s₀ : State) (l : List Action) (s : State) : Prop :=
  ∃ media, s.media = some media ∧ media.writable = true ∧ Marked m s₀ l media

/-- What the script has found out where it is. -/
def Trail (m : Marker) (s₀ : State) (l : List Action) (s : State) : Step → Prop
  | .identifying candidate _ => Since m s₀ candidate [.block true] l
  | .attaching candidate _ =>
    ∃ uuid, stripNewlines uuid = m.uuid ∧ Since m s₀ candidate [.block true, .uuid uuid] l
  | .mounting candidate device _ => ∃ uuid, stripNewlines uuid = m.uuid ∧
    Since m s₀ candidate [.block true, .uuid uuid, .attach (some device)] l
  | .reading _ => ∃ media uuid, s.media = some media ∧ stripNewlines uuid = m.uuid ∧
    Since m s₀ media.candidate (mountActions uuid media.device) l
  | .remounting _ => ∃ media uuid token, s.media = some media ∧ stripNewlines uuid = m.uuid ∧
    stripNewlines token = m.token ∧
      Since m s₀ media.candidate (mountActions uuid media.device ++ [Action.token token]) l
  | .marking => Ready m s₀ l s
  | .making | .copying _ => s.mounted = true ∧ Ready m s₀ l s
  | .sampling | .sleeping => s.mounted = true → Ready m s₀ l s
  | _ => True

structure Trusted (m : Marker) (s₀ : State) (l : List Action) (s : State) : Prop where
  candidates : ∀ c ∈ s.step.candidates, isCandidate c = true
  trail : Trail m s₀ l s s.step
  media : ∀ media, s.media = some media → isCandidate media.candidate = true ∧
    (media.writable = true → Marked m s₀ l media)
  ram : ∀ kind, (s.ram kind).length ≤ kind.limit
  logs : ∀ kind slot data, s.logs (kind, slot) = some data → slot < 2 ∧ data.length ≤ kind.limit ∧
    ∃ media, Marked m s₀ l media
  idle : s.step.searching = true → s.mounted = false

/-! ## Steps -/

@[simp]
theorem candidates_search : (search todo).candidates = todo := by
  cases todo <;> rfl

theorem trail_search (h : s.mounted = false) : Trail m s₀ l s (search todo) := by
  cases todo with
  | nil => exact fun hmounted => absurd (h.symm.trans hmounted) (by decide)
  | cons c todo => trivial

theorem Ready.snoc (h : Ready m s₀ l s) (a : Action) : Ready m s₀ (l ++ [a]) s := by
  obtain ⟨media, hmedia, hwritable, hmarked⟩ := h
  exact ⟨media, hmedia, hwritable, hmarked.snoc a⟩

/-- A command that mounts and writes nothing -/
theorem Trusted.move {step : Step} (h : Trusted m s₀ l s) (a : Action)
    (hcandidates : ∀ c ∈ step.candidates, isCandidate c = true)
    (htrail : Trail m s₀ (l ++ [a]) s step) (hidle : step.searching = true → s.mounted = false) :
    Trusted m s₀ (l ++ [a]) { s with step := step } where
  candidates := hcandidates
  trail := htrail
  media media hmedia := ⟨(h.media media hmedia).1, fun hw => ((h.media media hmedia).2 hw).snoc a⟩
  ram := h.ram
  logs kind slot data hdata := by
    obtain ⟨hslot, hlimit, media, hmarked⟩ := h.logs kind slot data hdata
    exact ⟨hslot, hlimit, media, hmarked.snoc a⟩
  idle := hidle

/-- The loop devices do not matter here. -/
theorem Trusted.loops {device : Option Text} {devices clearing : List Text} (h : Trusted m s₀ l s) :
    Trusted m s₀ l { s with loopDevice := device, attached := devices, clearing := clearing } where
  candidates := h.candidates
  trail := by
    have htrail := h.trail
    revert htrail
    cases s.step <;> exact id
  media := h.media
  ram := h.ram
  logs := h.logs
  idle := h.idle

theorem Trusted.search (h : Trusted m s₀ l s) (a : Action) (hmounted : s.mounted = false)
    (hcandidates : ∀ c ∈ todo, isCandidate c = true) :
    Trusted m s₀ (l ++ [a]) { s with step := search todo } :=
  h.move a (by simpa using hcandidates) (trail_search hmounted) fun _ => hmounted

theorem Trusted.finish (h : Trusted m s₀ l s) (a : Action) : Trusted m s₀ (l ++ [a]) s.finish := by
  unfold State.finish
  split
  · exact h.move a (List.forall_mem_nil _) trivial nofun
  · split <;> exact h.move a (List.forall_mem_nil _) trivial nofun

theorem length_tail_le (n : Nat) (data : Bytes) : (tail n data).length ≤ n := by
  rw [tail, List.length_drop]
  omega

theorem trusted_sampled {texts : Kind → Bytes} {devices : List Text} (h : Trusted m s₀ l s)
    (hnext : next m s (.sampled texts devices) = some t) :
    Trusted m s₀ (l ++ [Action.sampled texts devices]) t := by
  simp only [next] at hnext
  split at hnext
  on_goal 2 => cases hnext
  next hstep =>
  split at hnext
  on_goal 2 => cases hnext
  next hdevices =>
  obtain rfl := Option.some.inj hnext
  have htrail := h.trail
  rw [hstep] at htrail
  have hram : Trusted m s₀ l { s with ram := fun kind => tail kind.limit (texts kind) } :=
    { h with ram := fun kind => length_tail_le _ _ }
  split
  · next hmounted => exact hram.move _ (List.forall_mem_nil _) ⟨hmounted, (htrail hmounted).snoc _⟩ nofun
  · next hmounted => exact hram.search _ (eq_false_of_ne_true hmounted) (List.all_eq_true.mp hdevices)

theorem trusted_block {b : Bool} (h : Trusted m s₀ l s) (hrun : Trace.run (next m) l s₀ = some s)
    (hnext : next m s (.block b) = some t) : Trusted m s₀ (l ++ [Action.block b]) t := by
  simp only [next] at hnext
  split at hnext
  on_goal 2 => cases hnext
  next candidate todo hstep =>
  obtain rfl := Option.some.inj hnext
  have hcandidates := h.candidates
  have hidle := h.idle
  rw [hstep] at hcandidates hidle
  cases b with
  | true =>
    exact h.move _ hcandidates ⟨l, s, todo, rfl, hrun, hstep⟩ fun _ => hidle rfl
  | false => exact h.search _ (hidle rfl) fun c hc => hcandidates c (List.mem_cons_of_mem _ hc)

theorem trusted_uuid {output : Text} (h : Trusted m s₀ l s)
    (hnext : next m s (.uuid output) = some t) : Trusted m s₀ (l ++ [Action.uuid output]) t := by
  simp only [next] at hnext
  split at hnext
  on_goal 2 => cases hnext
  next candidate todo hstep =>
  obtain rfl := Option.some.inj hnext
  have hcandidates := h.candidates
  have hidle := h.idle
  have htrail := h.trail
  rw [hstep] at hcandidates hidle htrail
  split
  · next huuid =>
    exact h.move _ hcandidates ⟨output, huuid, htrail.snoc _⟩ fun _ => hidle rfl
  · exact h.search _ (hidle rfl) fun c hc => hcandidates c (List.mem_cons_of_mem _ hc)

theorem trusted_attach {device : Option Text} (h : Trusted m s₀ l s)
    (hnext : next m s (.attach device) = some t) : Trusted m s₀ (l ++ [Action.attach device]) t := by
  simp only [next] at hnext
  split at hnext
  on_goal 2 => cases hnext
  next candidate todo hstep =>
  have hcandidates := h.candidates
  have hidle := h.idle
  have htrail := h.trail
  rw [hstep] at hcandidates hidle htrail
  obtain ⟨uuid, huuid, hsince⟩ := htrail
  split at hnext <;> obtain rfl := Option.some.inj hnext
  · exact (h.search _ (hidle rfl) fun c hc => hcandidates c (List.mem_cons_of_mem _ hc)).loops
  · next device =>
    have hmount : Trusted m s₀ (l ++ [Action.attach (some device)])
        { s with step := .mounting candidate device todo } :=
      h.move _ hcandidates ⟨uuid, huuid, hsince.snoc _⟩ fun _ => hidle rfl
    exact hmount.loops

theorem trusted_mount {ok : Bool} (h : Trusted m s₀ l s) (hnext : next m s (.mount ok) = some t) :
    Trusted m s₀ (l ++ [Action.mount ok]) t := by
  simp only [next] at hnext
  split at hnext
  on_goal 2 => cases hnext
  next candidate device todo hstep =>
  have hcandidates := h.candidates
  have hidle := h.idle
  have htrail := h.trail
  rw [hstep] at hcandidates hidle htrail
  have htodo : ∀ c ∈ todo, isCandidate c = true := fun c hc => hcandidates c (List.mem_cons_of_mem _ hc)
  obtain ⟨uuid, huuid, hsince⟩ := htrail
  split at hnext <;> obtain rfl := Option.some.inj hnext
  · next hok =>
    obtain rfl : ok = true := hok
    have hread : Trusted m s₀ (l ++ [Action.mount true]) { s with step := .sleeping } :=
      h.move _ (List.forall_mem_nil _) (fun hm => absurd ((hidle rfl).symm.trans hm) (by decide)) nofun
    refine { hread with candidates := htodo, trail := ⟨_, uuid, rfl, huuid, hsince.snoc _⟩,
                        media := fun media hmedia => ?_, idle := fun _ => hidle rfl }
    obtain rfl := Option.some.inj hmedia
    exact ⟨hcandidates candidate List.mem_cons_self, nofun⟩
  · exact h.move _ htodo trivial fun _ => hidle rfl

theorem trusted_token {output : Text} (h : Trusted m s₀ l s)
    (hnext : next m s (.token output) = some t) : Trusted m s₀ (l ++ [Action.token output]) t := by
  simp only [next] at hnext
  split at hnext
  on_goal 2 => cases hnext
  next todo hstep =>
  obtain rfl := Option.some.inj hnext
  have hcandidates := h.candidates
  have hidle := h.idle
  have htrail := h.trail
  rw [hstep] at hcandidates hidle htrail
  obtain ⟨media, uuid, hmedia, huuid, hsince⟩ := htrail
  split
  · next htoken =>
    exact h.move _ hcandidates ⟨media, uuid, output, hmedia, huuid, htoken, hsince.snoc _⟩ fun _ => hidle rfl
  · exact h.move _ hcandidates trivial fun _ => hidle rfl

theorem trusted_remount {ok : Bool} (h : Trusted m s₀ l s)
    (hnext : next m s (.remount ok) = some t) : Trusted m s₀ (l ++ [Action.remount ok]) t := by
  simp only [next] at hnext
  split at hnext
  on_goal 2 => cases hnext
  next todo hstep =>
  have hcandidates := h.candidates
  have hidle := h.idle
  have htrail := h.trail
  rw [hstep] at hcandidates hidle htrail
  obtain ⟨media, uuid, token, hmedia, huuid, htoken, hsince⟩ := htrail
  split at hnext <;> obtain rfl := Option.some.inj hnext
  · next hok =>
    obtain rfl : ok = true := hok
    have hmarked : Marked m s₀ (l ++ [Action.remount true]) { media with writable := true } :=
      ⟨uuid, token, [], _, huuid, htoken, (List.append_nil _).symm, hsince.snoc _⟩
    have hwritable : s.media.map (fun media => { media with writable := true }) =
        some { media with writable := true } := by rw [hmedia]; rfl
    have hsleep : Trusted m s₀ (l ++ [Action.remount true]) { s with step := .ended } :=
      h.move _ (List.forall_mem_nil _) trivial nofun
    refine { hsleep with trail := ⟨_, hwritable, rfl, hmarked⟩, media := fun other hother => ?_, idle := nofun }
    obtain rfl := Option.some.inj (hwritable.symm.trans hother)
    exact ⟨(h.media media hmedia).1, fun _ => hmarked⟩
  · exact h.move _ hcandidates trivial fun _ => hidle rfl

theorem trusted_mark (h : Trusted m s₀ l s) (hnext : next m s .mark = some t) :
    Trusted m s₀ (l ++ [Action.mark]) t := by
  simp only [next] at hnext
  split at hnext
  on_goal 2 => cases hnext
  next hstep =>
  obtain rfl := Option.some.inj hnext
  have htrail := h.trail
  rw [hstep] at htrail
  have hended : Trusted m s₀ (l ++ [Action.mark]) { s with step := .ended } :=
    h.move _ (List.forall_mem_nil _) trivial nofun
  exact { hended with trail := ⟨rfl, htrail.snoc _⟩, idle := nofun }

theorem Trusted.unmounted {step : Step} (h : Trusted m s₀ l s) (a : Action)
    (hcandidates : ∀ c ∈ step.candidates, isCandidate c = true)
    (htrail : ∀ u, Trail m s₀ (l ++ [a]) u step) (hidle : step.searching = true → s.mounted = false) :
    Trusted m s₀ (l ++ [a]) { s.unmounted with step := step } :=
  { h.move a hcandidates (htrail _) hidle with trail := htrail _, media := nofun }

@[simp]
theorem detached_mounted : s.detached.mounted = s.mounted := by
  unfold State.detached
  split <;> rfl

theorem Trusted.detached (h : Trusted m s₀ l s) : Trusted m s₀ l s.detached := by
  unfold State.detached
  split <;> exact h.loops

theorem trusted_unmount {ok : Bool} (h : Trusted m s₀ l s)
    (hnext : next m s (.unmount ok) = some t) : Trusted m s₀ (l ++ [Action.unmount ok]) t := by
  have hcandidates := h.candidates
  have hidle := h.idle
  simp only [next] at hnext
  split at hnext <;> try cases hnext
  · next todo hstep =>
    rw [hstep] at hcandidates hidle
    split at hnext <;> obtain rfl := Option.some.inj hnext
    · exact h.unmounted _ hcandidates (fun _ => trivial) fun _ => hidle rfl
    · exact h.finish _
  · next hstep =>
    cases ok
    · simp only [Bool.false_eq_true, if_false]
      split <;> exact h.move _ (List.forall_mem_nil _) trivial nofun
    · simp only [if_true]
      split <;> exact h.unmounted _ (List.forall_mem_nil _) (fun _ => trivial) nofun

theorem trusted_detach {ok : Bool} (h : Trusted m s₀ l s)
    (hnext : next m s (.detach ok) = some t) : Trusted m s₀ (l ++ [Action.detach ok]) t := by
  have hcandidates := h.candidates
  have hidle := h.idle
  simp only [next] at hnext
  split at hnext <;> try cases hnext
  · next todo hstep =>
    rw [hstep] at hcandidates hidle
    unfold State.detach
    split
    · next hok =>
      have hloops : Trusted m s₀ l { s.detached with loopDevice := none } := h.detached.loops
      exact hloops.search _ (detached_mounted.trans (hidle rfl)) hcandidates
    · exact h.finish _
  · split
    · exact h.detached.move _ (List.forall_mem_nil _) trivial nofun
    · exact h.move _ (List.forall_mem_nil _) trivial nofun

theorem trusted_make {ok : Bool} (h : Trusted m s₀ l s) (hnext : next m s (.make ok) = some t) :
    Trusted m s₀ (l ++ [Action.make ok]) t := by
  simp only [next] at hnext
  split at hnext
  on_goal 2 => cases hnext
  next hstep =>
  have htrail := h.trail
  rw [hstep] at htrail
  split at hnext <;> obtain rfl := Option.some.inj hnext
  · exact h.move _ (List.forall_mem_nil _) ⟨htrail.1, htrail.2.snoc _⟩ nofun
  · exact h.finish _

/-- The snapshot in memory, or a part of it, is written over the file of its slot. -/
theorem Trusted.write {kind : Kind} {rest : List Kind} {data : Bytes} (h : Trusted m s₀ l s)
    (hstep : s.step = .copying (kind :: rest)) (hdata : data.length ≤ (s.ram kind).length) :
    Trusted m s₀ l { s with logs := Function.update s.logs (kind, s.sample % 2) (some data) } := by
  have htrail := h.trail
  rw [hstep] at htrail
  obtain ⟨-, media, -, -, hmarked⟩ := htrail
  refine { h with trail := ?_, logs := fun k slot written hwritten => ?_ }
  · have htrail := h.trail
    rw [hstep] at htrail ⊢
    exact htrail
  · change Function.update s.logs (kind, s.sample % 2) (some data) (k, slot) = some written at hwritten
    by_cases hkey : (k, slot) = (kind, s.sample % 2)
    · rw [hkey, Function.update_self] at hwritten
      obtain ⟨rfl, rfl⟩ := Prod.mk.inj hkey
      obtain rfl := Option.some.inj hwritten
      exact ⟨Nat.mod_lt _ (by decide), Nat.le_trans hdata (h.ram k), media, hmarked⟩
    · rw [Function.update_of_ne hkey] at hwritten
      exact h.logs k slot written hwritten

theorem trusted_copied (h : Trusted m s₀ l s) (hnext : next m s .copied = some t) :
    Trusted m s₀ (l ++ [Action.copied]) t := by
  simp only [next] at hnext
  split at hnext
  on_goal 2 => cases hnext
  next kind rest hstep =>
  obtain rfl := Option.some.inj hnext
  have htrail := h.trail
  rw [hstep] at htrail
  have hready : Ready m s₀ (l ++ [Action.copied]) s := htrail.2.snoc _
  have hwrite := h.write hstep (Nat.le_refl (s.ram kind).length)
  cases rest with
  | nil => exact hwrite.move _ (List.forall_mem_nil _) (fun _ => hready) nofun
  | cons next rest => exact hwrite.move _ (List.forall_mem_nil _) ⟨htrail.1, hready⟩ nofun

theorem trusted_copyFailed {written : Option Nat} (h : Trusted m s₀ l s)
    (hnext : next m s (.copyFailed written) = some t) : Trusted m s₀ (l ++ [Action.copyFailed written]) t := by
  simp only [next] at hnext
  split at hnext
  on_goal 2 => cases hnext
  next kind rest hstep =>
  split at hnext <;> obtain rfl := Option.some.inj hnext
  · exact h.finish _
  · exact (h.write hstep (List.length_take_le' _ _)).finish _

theorem trusted_slept (h : Trusted m s₀ l s) (hnext : next m s .slept = some t) :
    Trusted m s₀ (l ++ [Action.slept]) t := by
  simp only [next] at hnext
  split at hnext
  on_goal 2 => cases hnext
  next hstep =>
  obtain rfl := Option.some.inj hnext
  have htrail := h.trail
  rw [hstep] at htrail
  have hcount : Trusted m s₀ l { s with sample := s.sample + 1 } := by
    refine { h with trail := ?_ }
    rw [hstep]
    exact htrail
  unfold State.slept
  split
  · exact hcount.move _ (List.forall_mem_nil _) (fun hmounted => (htrail hmounted).snoc _) nofun
  · exact hcount.finish _

theorem trusted_signal (h : Trusted m s₀ l s) (hnext : next m s .signal = some t) :
    Trusted m s₀ (l ++ [Action.signal]) t := by
  simp only [next] at hnext
  split at hnext <;> try cases hnext
  · exact h.move _ (List.forall_mem_nil _) trivial nofun
  · exact h.move _ (List.forall_mem_nil _) trivial nofun
  · exact h.finish _

theorem trusted_killed (h : Trusted m s₀ l s) (hnext : next m s .killed = some t) :
    Trusted m s₀ (l ++ [Action.killed]) t := by
  simp only [next] at hnext
  split at hnext <;> try cases hnext
  exact h.move _ (List.forall_mem_nil _) trivial nofun

/-- One command, or a signal, keeps what is known. -/
theorem trusted_next (hrun : Trace.run (next m) l s₀ = some s) (h : Trusted m s₀ l s)
    (hnext : next m s a = some t) : Trusted m s₀ (l ++ [a]) t := by
  cases a with
  | sampled texts devices => exact trusted_sampled h hnext
  | block b => exact trusted_block h hrun hnext
  | uuid output => exact trusted_uuid h hnext
  | attach device => exact trusted_attach h hnext
  | mount ok => exact trusted_mount h hnext
  | token output => exact trusted_token h hnext
  | remount ok => exact trusted_remount h hnext
  | mark => exact trusted_mark h hnext
  | unmount ok => exact trusted_unmount h hnext
  | detach ok => exact trusted_detach h hnext
  | make ok => exact trusted_make h hnext
  | copied => exact trusted_copied h hnext
  | copyFailed written => exact trusted_copyFailed h hnext
  | slept => exact trusted_slept h hnext
  | signal => exact trusted_signal h hnext
  | killed => exact trusted_killed h hnext

theorem trusted_start (h : start m = some s) : Trusted m s [] s := by
  unfold start at h
  split at h
  on_goal 2 => cases h
  obtain rfl := Option.some.inj h
  exact ⟨List.forall_mem_nil _, nofun, nofun, fun _ => Nat.zero_le _, nofun, nofun⟩

/-! ## What is left -/

/-- The media are mounted, and the script does not know it yet. -/
def Step.inWindow : Step → Bool
  | .reading _ | .remounting _ | .marking | .refusing _ => true
  | _ => false

/-- A signal came while the script did not know of what it had mounted. -/
def WindowSignal (m : Marker) (s₀ : State) (l : List Action) : Prop :=
  ∃ before after u, l = before ++ .signal :: after ∧ Trace.run (next m) before s₀ = some u ∧
    u.step.inWindow = true

theorem windowSignal_snoc (ha : a ≠ .signal) : WindowSignal m s₀ (l ++ [a]) ↔ WindowSignal m s₀ l := by
  constructor
  · rintro ⟨before, after, u, hl, hrest⟩
    obtain rfl | ⟨after, last, rfl⟩ := List.eq_nil_or_concat after
    · exact absurd (List.append_inj' hl rfl).2 (by simpa using ha)
    · rw [List.concat_eq_append, ← List.cons_append, ← List.append_assoc] at hl
      exact ⟨before, after, u, (List.append_inj' hl rfl).1, hrest⟩
  · rintro ⟨before, after, u, rfl, hrest⟩
    exact ⟨before, after ++ [a], u, by simp, hrest⟩

theorem not_windowSignal (h : .signal ∉ l) : ¬ WindowSignal m s₀ l := by
  rintro ⟨before, after, u, rfl, -⟩
  exact h (List.mem_append_right _ List.mem_cons_self)

/-- No candidate is attached here. -/
def Step.free : Step → Bool
  | .sampling | .sleeping | .probing .. | .identifying .. | .attaching .. => true
  | _ => false

/-- The script writes to the media. -/
def Step.busy : Step → Bool
  | .making | .copying _ => true
  | _ => false

/-- The loop device of the script is the one that is there, and what is mounted is mounted from it. -/
structure Held (device : Option Text) (loops pending : List Text) (media : Option Media) : Prop where
  attached : loops = device.toList
  clearing : pending = []
  backs : ∀ m, media = some m → device = some m.device

/-- The loop device of what is mounted is there, and goes with the unmount. -/
structure Left (loops pending : List Text) (media : Option Media) : Prop where
  attached : loops = media.toList.map (·.device)
  clearing : ∀ d ∈ loops, d ∈ pending

theorem Held.left {loops pending : List Text} {media : Option Media} (h : Held none loops pending media) :
    Left loops pending media := by
  have hmedia : media = none := Option.eq_none_iff_forall_ne_some.mpr fun m hm => absurd (h.backs m hm) nofun
  obtain rfl := h.attached
  rw [hmedia]
  exact ⟨rfl, nofun⟩

theorem Held.unmounted (h : Held s.loopDevice s.attached s.clearing s.media) :
    Held s.loopDevice s.unmounted.attached s.unmounted.clearing none where
  attached := by simp [State.unmounted, h.clearing, h.attached]
  clearing := by simp [State.unmounted, h.clearing]
  backs := nofun

theorem Left.unmounted (h : Left s.attached s.clearing s.media) : s.unmounted.attached = [] := by
  rw [State.unmounted, List.filter_eq_nil_iff]
  intro d hd
  have hclearing := h.clearing d hd
  rw [h.attached] at hd
  obtain ⟨media, hmedia, rfl⟩ := List.mem_map.mp hd
  simp [State.backs, Option.mem_toList.mp hmedia, hclearing]

/-- `losetup -d` with nothing mounted -/
theorem detached_eq (hmedia : s.media = none) :
    s.detached = { s with attached := s.attached.filter fun d => some d != s.loopDevice } := by
  have hbacks : s.loopDevice.any s.backs = false := by
    cases s.loopDevice <;> simp [State.backs, hmedia]
  rw [State.detached, hbacks, if_neg (by decide)]

theorem Held.cleared {device : Option Text} {loops pending : List Text} (h : Held device loops pending none) :
    Held none (loops.filter fun d => some d != device) pending none := by
  refine ⟨?_, h.clearing, nofun⟩
  rw [h.attached]
  cases device <;> simp

/-- `losetup -d` at the end -/
theorem Held.detached (h : Held s.loopDevice s.attached s.clearing s.media) :
    Left s.detached.attached s.detached.clearing s.media := by
  cases hmedia : s.media with
  | none =>
    rw [hmedia] at h
    rw [detached_eq hmedia]
    exact h.cleared.left
  | some media =>
    have hdevice := h.backs media hmedia
    have hbacks : s.loopDevice.any s.backs = true := by simp [State.backs, hmedia, hdevice]
    rw [State.detached, if_pos hbacks]
    exact ⟨by rw [h.attached, hdevice]; rfl, fun d hd => List.mem_append_left _ (h.attached ▸ hd)⟩

/-- The script before its end: its variables tell what it holds, but for the window. -/
structure Working (l : List Action) (s : State) : Prop where
  unsignalled : .signal ∉ l
  held : Held s.loopDevice s.attached s.clearing s.media
  mounting : ∀ c d todo, s.step = .mounting c d todo → s.loopDevice = some d
  window : s.step.inWindow = true → s.media ≠ none ∧ s.mounted = false
  known : s.step.inWindow = false → (s.media ≠ none ↔ s.mounted = true)
  searching : s.step.searching = true → s.mounted = false
  free : s.step.free = true → s.mounted = false → s.loopDevice = none
  busy : s.step.busy = true → s.mounted = true

/-- The script in `finish` and behind it -/
structure Leaving (m : Marker) (s₀ : State) (l : List Action) (s : State) : Prop where
  held : s.step ≠ .ended → Held s.loopDevice s.attached s.clearing s.media
  released : s.step = .ended → Left s.attached s.clearing s.media
  mounted : s.step = .unmounting → s.media ≠ none ∧ ¬ WindowSignal m s₀ l
  left : s.step ≠ .unmounting → (s.media ≠ none ↔ WindowSignal m s₀ l)

theorem Working.leaving (h : Working l s) (hwindow : WindowSignal m s₀ (l ++ [a]) ↔ s.step.inWindow = true) :
    Leaving m s₀ (l ++ [a]) s.finish := by
  have hmedia : s.mounted = false → (s.media ≠ none ↔ WindowSignal m s₀ (l ++ [a])) := by
    intro hmounted
    rw [hwindow]
    cases hstep : s.step.inWindow with
    | true => exact iff_of_true (h.window hstep).1 rfl
    | false =>
      rw [h.known hstep, hmounted]
  unfold State.finish
  split
  · next hmounted =>
    have hout : s.step.inWindow = false := by
      cases hstep : s.step.inWindow with
      | false => rfl
      | true => exact absurd ((h.window hstep).2.symm.trans hmounted) (by decide)
    exact ⟨fun _ => h.held, nofun, fun _ => ⟨(h.known hout).mpr hmounted, by rw [hwindow, hout]; decide⟩,
      fun hne => absurd rfl hne⟩
  · next hmounted =>
    have hleft := hmedia (eq_false_of_ne_true hmounted)
    split
    · exact ⟨fun _ => h.held, nofun, nofun, fun _ => hleft⟩
    · next hloop =>
      have hheld := h.held
      rw [Option.not_isSome_iff_eq_none.mp hloop] at hheld
      exact ⟨fun hne => absurd rfl hne, fun _ => hheld.left, nofun, fun _ => hleft⟩

theorem Working.leave (h : Working l s) (ha : a ≠ .signal) (hout : s.step.inWindow = false) :
    Leaving m s₀ (l ++ [a]) s.finish := by
  apply h.leaving
  rw [windowSignal_snoc ha, hout]
  exact iff_of_false (not_windowSignal h.unsignalled) (by decide)

/-- A command that holds and releases nothing -/
theorem Working.move {step : Step} (h : Working l s) (ha : a ≠ .signal)
    (hmounting : ∀ c d todo, step ≠ .mounting c d todo)
    (hwindow : step.inWindow = s.step.inWindow) (hsearching : step.searching = true → s.mounted = false)
    (hfree : step.free = true → s.mounted = false → s.loopDevice = none)
    (hbusy : step.busy = true → s.mounted = true) : Working (l ++ [a]) { s with step := step } where
  unsignalled := by simpa [h.unsignalled] using ha.symm
  held := h.held
  mounting c d todo hstep := absurd hstep (hmounting c d todo)
  window := fun hin => h.window (hwindow.symm.trans hin)
  known := fun hout => h.known (hwindow.symm.trans hout)
  searching := hsearching
  free := hfree
  busy := hbusy

/-- To the next candidate -/
theorem Working.search (h : Working l s) (ha : a ≠ .signal) (hout : s.step.inWindow = false)
    (hmounted : s.mounted = false) (hloop : s.loopDevice = none) :
    Working (l ++ [a]) { s with step := search todo } := by
  cases todo with
  | nil => exact h.move ha nofun hout.symm nofun (fun _ _ => hloop) nofun
  | cons c todo => exact h.move ha nofun hout.symm (fun _ => hmounted) (fun _ _ => hloop) nofun

/-- Before `finish` and in it -/
structure Kept (m : Marker) (s₀ : State) (l : List Action) (s : State) : Prop where
  working : s.step.finishing = false → Working l s
  leaving : s.step.finishing = true → Leaving m s₀ l s

theorem finishing_finish : s.finish.step.finishing = true := by
  unfold State.finish
  split
  · rfl
  · split <;> rfl

theorem Working.kept (h : Working l s) (hstep : s.step.finishing = false) : Kept m s₀ l s :=
  ⟨fun _ => h, fun hfin => absurd (hstep.symm.trans hfin) (by decide)⟩

theorem Working.moved {step : Step} (h : Working l s) (ha : a ≠ .signal)
    (hmounting : ∀ c d todo, step ≠ .mounting c d todo) (hwindow : step.inWindow = s.step.inWindow) (hsearching : step.searching = true → s.mounted = false)
    (hfree : step.free = true → s.mounted = false → s.loopDevice = none)
    (hbusy : step.busy = true → s.mounted = true) (hstep : step.finishing = false) :
    Kept m s₀ (l ++ [a]) { s with step := step } :=
  Working.kept (h.move ha hmounting hwindow hsearching hfree hbusy) hstep

theorem Leaving.kept (h : Leaving m s₀ l s) (hstep : s.step.finishing = true) : Kept m s₀ l s :=
  ⟨fun hfin => absurd (hstep.symm.trans hfin) (by decide), fun _ => h⟩

theorem Working.left (h : Working l s) (ha : a ≠ .signal) (hout : s.step.inWindow = false) :
    Kept m s₀ (l ++ [a]) s.finish :=
  Leaving.kept (h.leave ha hout) finishing_finish

section Sample

def sampleMarker : Marker := ⟨"ABCD-1234".toList, List.replicate 36 'a'⟩

def sampleStart : State := ⟨.sampling, 0, fun _ => [], false, none, [], [], none, fun _ => none⟩

theorem start_sample : start sampleMarker = some sampleStart := if_pos (by decide +kernel)

/-- The first partition is the one that is looked for. -/
def mountRun : List Action :=
  [.sampled (fun _ => [0]) ["/dev/sda1".toList], .block true, .uuid "ABCD-1234\n".toList,
    .attach (some "/dev/loop0".toList), .mount true]

end Sample

/-- At every moment of every run: what is mounted is a partition of an external disk, and it is
writable only behind the script's look at its UUID and its token. What the script wrote is for such
media, and has at most the six files with their limits. -/
theorem logs_marked (m : Marker) (l : List Action) (hstart : start m = some s)
    (h : Trace.run (next m) l s = some t) :
    (∀ media, t.media = some media → isCandidate media.candidate = true ∧
      (media.writable = true → Marked m s l media)) ∧
    (∀ kind slot data, t.logs (kind, slot) = some data → slot < 2 ∧ data.length ≤ kind.limit ∧
      ∃ media, Marked m s l media) ∧
    ∀ rest, t.step = .copying rest → ∃ media, t.media = some media ∧ media.writable = true := by
  have hrun : Trusted m s l t :=
    Trace.run_induction (I := fun l t => Trusted m s l t) (trusted_start hstart)
      (fun l a u v hu hI hnext => trusted_next hu hI hnext) h
  refine ⟨hrun.media, hrun.logs, fun rest hstep => ?_⟩
  have htrail := hrun.trail
  rw [hstep] at htrail
  obtain ⟨-, media, hmedia, hwritable, -⟩ := htrail
  exact ⟨media, hmedia, hwritable⟩

/-- It bears the mark, and a first snapshot is written. -/
def copyRun : List Action :=
  mountRun ++ [Action.token (List.replicate 36 'a'), .remount true, .mark, .make true, .copied]

theorem logs_marked_sample : ∃ t data media, Trace.run (next sampleMarker) copyRun sampleStart = some t ∧
    t.logs (.kernel, 0) = some data ∧ Marked sampleMarker sampleStart copyRun media := by
  have hrun : ((Trace.run (next sampleMarker) copyRun sampleStart).any fun t =>
      (t.logs (.kernel, 0)).isSome) = true := by decide +kernel
  obtain ⟨t, ht, hlogs⟩ := (Option.any_eq_true _ _).mp hrun
  obtain ⟨data, hdata⟩ := Option.isSome_iff_exists.mp hlogs
  obtain ⟨-, -, media, hmarked⟩ := (logs_marked sampleMarker copyRun start_sample ht).2.1 _ _ _ hdata
  exact ⟨t, data, media, ht, hdata, hmarked⟩

end Azurefin.Capture
