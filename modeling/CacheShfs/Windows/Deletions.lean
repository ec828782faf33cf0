import CacheShfs.Windows.Session

/-!
# What a mount under Windows deletes

A file is deleted in Windows in two steps: `set_delete` marks its context, and the clean-up of the
context deletes it.  `deletes_marked`: whatever callbacks are made, no call of the mount deletes
anything but in the clean-up of a context whose last `set_delete` has marked it.

The calls are read off the callbacks (`events`), and they say all that the callbacks do to the
mount: a run of callbacks is a run of calls, so what holds of every run of calls holds of every
mount under Windows.
-/

namespace CacheShfs

open Machine Program

/-- The call deletes something. -/
def Call.Deletes : Call → Prop
  | .unlink _ _ => True
  | .rmdir _ _ => True
  | _ => False

/-- What happens beside the calls, as an event of the mount. -/
def Beside.event {ρ : Type} : Beside ρ → Event ρ
  | .tick nanoseconds => .tick nanoseconds
  | .external remote => .external remote

namespace Windows

/-! ## Marks -/

namespace CacheFs

variable {σ : Type} {h : CallHandler σ} {s : σ}

/-- Only `set_delete` marks a context, or takes the mark from it. -/
lemma onFile_mark (setName : Str → Except UInt32 Unit) {context after : FileContext}
    {request : FileRequest}
    (hafter : ((onFile setName context request).run h s).1.2 = some after) :
    request = .setDelete after.deletePending ∨
      (∀ deleteFile, request ≠ .setDelete deleteFile) ∧
        after.deletePending = context.deletePending := by
  cases request with
  | close =>
      simp only [onFile, run_map] at hafter
      cases hafter
  | readDirectory restart =>
      have hsame := readDirectory_context (h := h) (s := s) setName context restart
      simp only [onFile, run_map] at hafter
      refine .inr ⟨fun _ heq => FileRequest.noConfusion heq, ?_⟩
      rw [← Option.some.inj hafter, hsame]
  | setDelete deleteFile =>
      obtain rfl := Option.some.inj hafter
      exact .inl rfl
  | _ =>
      simp only [onFile, run_map] at hafter
      obtain rfl := Option.some.inj hafter
      exact .inr ⟨fun _ heq => FileRequest.noConfusion heq, rfl⟩

end CacheFs

/-! ## Callbacks as calls -/

namespace WinFsp

variable {ρ : Type} (R : RemoteFilesystem ρ) (setName : Str → Except UInt32 Unit)

/-- What a callback is for the mount: the calls that it makes, one after the other. -/
def events (f : WinFsp ρ) : FspEvent ρ → List (Event ρ)
  | .volume request => ((CacheFs.onVolume request).trace (World.vfs R) f.world).map .call
  | .file id request =>
      match f.contexts.lookup id with
      | none => []
      | some context =>
          ((CacheFs.onFile setName context request).trace (World.vfs R) f.world).map .call
  | .beside event => [event.event]

variable {R setName} {f : WinFsp ρ}

lemma run_calls {α : Type} (p : CallProgram α) (w : World ρ) :
    (p.run (World.vfs R) w).2 = run (World.step R) w ((p.trace (World.vfs R) w).map .call) := by
  rw [run_eq_trace]
  generalize p.trace (World.vfs R) w = calls
  induction calls generalizing w with
  | nil => rfl
  | cons call calls ih =>
      rw [List.map_cons, run_cons, run_cons, ih, Program.exec, World.vfs_snd]
      rfl

/-- A callback does to the mount what its calls do. -/
lemma world_step (e : FspEvent ρ) :
    (f.step R setName e).world = run (World.step R) f.world (f.events R setName e) := by
  cases e with
  | beside event => cases event <;> rfl
  | volume request =>
      refine Eq.trans ?_ (run_calls (CacheFs.onVolume request) f.world)
      simp only [WinFsp.step]
      cases ((CacheFs.onVolume request).run (World.vfs R) f.world).1 <;> rfl
  | file id request =>
      simp only [WinFsp.step, events]
      cases f.contexts.lookup id with
      | none => rfl
      | some context =>
          refine Eq.trans ?_ (run_calls (CacheFs.onFile setName context request) f.world)
          dsimp only
          cases ((CacheFs.onFile setName context request).run (World.vfs R) f.world).1.2 <;> rfl

lemma not_deletes_of_looks {call : CacheShfs.Call} (h : call.Looks) : ¬ call.Deletes := by
  cases call with
  | lookup _ _ => exact id
  | getattr _ => exact id
  | readdir _ => exact id
  | _ => exact h.elim

/-- Only the clean-up of a marked context deletes. -/
lemma marked_of_deletes {e : FspEvent ρ} {call : CacheShfs.Call}
    (hcall : .call call ∈ f.events R setName e) (hdeletes : call.Deletes) :
    ∃ id context fileName flags, e = .file id (.cleanup (some fileName) flags) ∧
      f.contexts.lookup id = some context ∧ flags &&& fspCleanupDelete ≠ 0 ∧
      context.deletePending = true := by
  cases e with
  | beside event => cases event <;> simp [events, Beside.event] at hcall
  | volume request =>
      obtain ⟨call', hmem, heq⟩ := List.mem_map.mp hcall
      obtain rfl : call' = call := Event.call.inj heq
      rcases (CacheFs.asks_onVolume request).trace f.world call' hmem with hlooks | hcalls
      · exact absurd hdeletes (not_deletes_of_looks hlooks)
      · cases request with
        | openFile _ _ _ =>
            obtain ⟨_, _, -, rfl⟩ := hcalls
            exact hdeletes.elim
        | create _ _ _ _ =>
            rcases hcalls with ⟨_, _, _, rfl⟩ | ⟨_, _, _, _, rfl⟩ <;> exact hdeletes.elim
        | _ => exact hcalls.elim
  | file id request =>
      simp only [events] at hcall
      cases hheld : f.contexts.lookup id with
      | none =>
          rw [hheld] at hcall
          cases hcall
      | some context =>
          rw [hheld] at hcall
          obtain ⟨call', hmem, heq⟩ := List.mem_map.mp hcall
          obtain rfl : call' = call := Event.call.inj heq
          rcases (CacheFs.asks_onFile setName context request).trace f.world call' hmem with
            hlooks | hcalls
          · exact absurd hdeletes (not_deletes_of_looks hlooks)
          · cases request with
            | cleanup fileName flags =>
                obtain ⟨hname, hflags, hpending, -⟩ := hcalls
                obtain ⟨name, rfl⟩ := Option.ne_none_iff_exists'.mp hname
                exact ⟨id, context, name, flags, rfl, hheld, hflags, hpending⟩
            | close =>
                obtain ⟨_, -, rfl⟩ := hcalls
                exact hdeletes.elim
            | flush =>
                obtain ⟨_, rfl⟩ := hcalls
                exact hdeletes.elim
            | overwrite =>
                obtain rfl := hcalls
                exact hdeletes.elim
            | rename _ _ _ =>
                obtain ⟨_, _, _, _, rfl⟩ := hcalls
                exact hdeletes.elim
            | setBasicInfo _ _ _ =>
                obtain rfl := hcalls
                exact hdeletes.elim
            | setFileSize _ _ =>
                obtain ⟨-, rfl⟩ := hcalls
                exact hdeletes.elim
            | read _ _ =>
                obtain ⟨_, _, rfl⟩ := hcalls
                exact hdeletes.elim
            | write _ _ _ _ =>
                obtain ⟨_, _, _, -, rfl⟩ := hcalls
                exact hdeletes.elim
            | _ => exact hcalls.elim

/-- A context that is marked has been marked by the callback, or was before and is still. -/
lemma marked_step (h : Ok f) {e : FspEvent ρ} {id : ℕ} {after : FileContext}
    (hheld : (f.step R setName e).contexts.lookup id = some after)
    (hmark : after.deletePending = true) :
    e = .file id (.setDelete true) ∨ e ≠ .file id (.setDelete false) ∧
      ∃ context, f.contexts.lookup id = some context ∧ context.deletePending = true := by
  cases e with
  | beside event =>
      refine .inr ⟨?_, after, hheld, hmark⟩
      intro heq
      cases heq
  | volume request =>
      have hne : FspEvent.volume request ≠ (.file id (.setDelete false) : FspEvent ρ) := by
        intro heq
        cases heq
      refine .inr ⟨hne, after, ?_, hmark⟩
      simp only [WinFsp.step] at hheld
      rcases leaves_onVolume (R := R) h.registry request with
        ⟨context, info, hreply, hopened⟩ | ⟨hreply, -⟩
      · rw [hreply] at hheld
        simp only [hold, FMap.lookup_insert_eq_ite] at hheld
        split at hheld
        · -- a new context is not marked
          obtain rfl := Option.some.inj hheld
          rw [hopened.unmarked] at hmark
          cases hmark
        · exact hheld
      · cases hr : ((CacheFs.onVolume request).run (World.vfs R) f.world).1 with
        | opened context info => exact absurd hr (hreply context info)
        | _ =>
            rw [hr] at hheld
            exact hheld
  | file id' request =>
      simp only [WinFsp.step] at hheld
      cases hcontext : f.contexts.lookup id' with
      | none =>
          rw [hcontext] at hheld
          refine .inr ⟨?_, after, hheld, hmark⟩
          rintro heq
          cases heq
          rw [hcontext] at hheld
          cases hheld
      | some context =>
          rw [hcontext] at hheld
          dsimp only at hheld
          by_cases hid : id = id'
          · subst hid
            cases hafter : ((CacheFs.onFile setName context request).run (World.vfs R)
                f.world).1.2 with
            | none =>
                rw [hafter] at hheld
                simp only [keep, FMap.lookup_erase_eq_ite, if_true] at hheld
                cases hheld
            | some after' =>
                rw [hafter] at hheld
                simp only [keep, FMap.lookup_insert_eq_ite, if_true] at hheld
                obtain rfl := Option.some.inj hheld
                rcases CacheFs.onFile_mark setName hafter with rfl | ⟨hrequest, hsame⟩
                · rw [hmark]
                  exact .inl rfl
                · refine .inr ⟨?_, context, hcontext, hsame.symm.trans hmark⟩
                  rintro heq
                  cases heq
                  exact hrequest false rfl
          · refine .inr ⟨?_, after, ?_, hmark⟩
            · rintro heq
              cases heq
              exact hid rfl
            · cases hafter : ((CacheFs.onFile setName context request).run (World.vfs R)
                  f.world).1.2 with
              | none =>
                  rw [hafter] at hheld
                  simpa only [keep, FMap.lookup_erase_eq_ite, if_neg hid] using hheld
              | some after' =>
                  rw [hafter] at hheld
                  simpa only [keep, FMap.lookup_insert_eq_ite, if_neg hid] using hheld

/-- A context that is marked after a run has been marked in it, and not unmarked since. -/
lemma marked_run (config : Config) (disk : Disk) (conn : Conn ρ) {es : List (FspEvent ρ)} {id : ℕ}
    {context : FileContext}
    (hheld : (after R setName config disk conn es).contexts.lookup id = some context)
    (hmark : context.deletePending = true) :
    ∃ before since, es = before ++ .file id (.setDelete true) :: since ∧
      .file id (.setDelete false) ∉ since := by
  induction es using List.reverseRecOn generalizing context with
  | nil => exact (not_held_start hheld).elim
  | append_singleton es e ih =>
      have hlast : after R setName config disk conn (es ++ [e]) =
          (after R setName config disk conn es).step R setName e := run_append _ _ _ _
      rw [hlast] at hheld
      rcases marked_step (ok_after setName config disk conn es) hheld hmark with
        rfl | ⟨hne, context', hheld', hmark'⟩
      · exact ⟨es, [], rfl, List.not_mem_nil⟩
      · obtain ⟨before, since, rfl, hsince⟩ := ih hheld' hmark'
        refine ⟨before, since ++ [e], by rw [List.append_assoc, List.cons_append], fun hmem => ?_⟩
        rcases List.mem_append.mp hmem with hmem | hmem
        · exact hsince hmem
        · exact hne (List.mem_singleton.mp hmem).symm

/-- **A mount under Windows deletes only what has been marked.**  What callbacks do to the mount is
what the calls do that they make.  A call that deletes is made only for a clean-up that asks for it,
and only if the last `set_delete` of its context has marked it. -/
theorem deletes_marked (R : RemoteFilesystem ρ) (setName : Str → Except UInt32 Unit)
    (config : Config) (disk : Disk) (conn : Conn ρ) (es : List (FspEvent ρ)) :
    (after R setName config disk conn es).world = run (World.step R) (World.new config disk conn)
      (outputs (step R setName) (events R setName) (start (World.new config disk conn)) es) ∧
    ∀ e call, .call call ∈ (after R setName config disk conn es).events R setName e →
      call.Deletes → ∃ id fileName flags, e = .file id (.cleanup (some fileName) flags) ∧
        flags &&& fspCleanupDelete ≠ 0 ∧
        ∃ before since, es = before ++ .file id (.setDelete true) :: since ∧
          .file id (.setDelete false) ∉ since := by
  constructor
  · suffices h : ∀ f : WinFsp ρ, (run (step R setName) f es).world =
        run (World.step R) f.world (outputs (step R setName) (events R setName) f es) from
      h (start (World.new config disk conn))
    intro f
    induction es generalizing f with
    | nil => rfl
    | cons e es ih => rw [run_cons, ih, outputs, run_append, world_step]
  · intro e call hcall hdeletes
    obtain ⟨id, context, fileName, flags, rfl, hheld, hflags, hmark⟩ :=
      marked_of_deletes hcall hdeletes
    exact ⟨id, fileName, flags, rfl, hflags, marked_run config disk conn hheld hmark⟩

/-- The file `/a` is opened and marked. -/
def markedForDeletion : List (FspEvent Memory) :=
  [.volume (.openFile ['\\', 'a'] 0 0), .file 0 (.setDelete true)]

/-- The mount after that. -/
def afterMark : WinFsp Memory :=
  after Memory.filesystem (fun _ => .ok ()) ⟨.root, false, .onDemand, 5 * 10 ^ 9, 4⟩ Disk.empty
    ⟨World.sampleTree, 0, []⟩ markedForDeletion

/-- Its clean-up unlinks it. -/
theorem deletes_marked_example :
    afterMark.events Memory.filesystem (fun _ => .ok ())
        (.file 0 (.cleanup (some ['\\', 'a']) 1)) = [.call (.unlink .root ['a'])] ∧
      ∃ before since, markedForDeletion = before ++ .file 0 (.setDelete true) :: since ∧
        .file 0 (.setDelete false) ∉ since := by
  have hevents : afterMark.events Memory.filesystem (fun _ => .ok ())
      (.file 0 (.cleanup (some ['\\', 'a']) 1)) = [.call (.unlink .root ['a'])] := rfl
  refine ⟨hevents, ?_⟩
  have hcall : .call (.unlink .root ['a']) ∈ afterMark.events Memory.filesystem (fun _ => .ok ())
      (.file 0 (.cleanup (some ['\\', 'a']) 1)) := by
    rw [hevents]
    exact List.mem_singleton_self _
  obtain ⟨id, fileName, flags, heq, -, hmarked⟩ :=
    (deletes_marked Memory.filesystem (fun _ => .ok ()) _ _ _ markedForDeletion).2 _ _ hcall trivial
  cases heq
  exact hmarked

end WinFsp

end Windows

end CacheShfs
