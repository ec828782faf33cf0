import CacheShfs.Vfs.Tasks

/-!
# A file that has been written

Any number of concurrent calls of `lookup`, `getattr` and `read`, and one `write` of the file `p`.
A call that begins after the `write` has returned answers from what the cache has confirmed since
then, or asks the remote.

The `write` invalidates once: it drops the content, then the time at which the metadata was
confirmed.  A call that is under way can put back what it learned before: attributes (`put_attrs`,
and then `validated.insert`), or a chunk that it has downloaded.  Without such late steps
(`Timely`), and where no recording deletes an object that the later read still has to open
(`KeepsSnapshotOf`), every later call answers with the file as the `write` left it (`write_seen`).
-/

namespace CacheShfs

open Interleave Machine

variable {ρ : Type} {R : RemoteFilesystem ρ} {view : ρ → Tree}

/-! ## Objects in progress -/

namespace CallPc

variable {G : Str → Label → ℕ → Bytes → Prop} {w w' : World ρ} {pc pc' : CallPc}

/-- The object that a call has allocated and not yet recorded. -/
def owns : CallPc → Option ℕ
  | .content task => ReadTask.owns task.pc
  | _ => none

/-- What holds of the object that a call owns. -/
def Owned (s : Store) : CallPc → Prop
  | .content task => ReadTask.Owned task.pc s
  | _ => True

lemma owns_served (caller : Caller) (path : RemotePath) (attributes : FileAttributes)
    (chunkSize : ℕ) : (caller.served path attributes chunkSize).owns = none := by
  cases caller with
  | read file offset size => exact ReadTask.owns_start _ _
  | _ => rfl

lemma owns_rejected (caller : Caller) (e : Error) : (caller.rejected e).owns = none := by
  cases caller <;> rfl

lemma owned_of_owns_none (h : pc.owns = none) (s : Store) : pc.Owned s := by
  cases pc with
  | content task => exact ReadTask.owned_of_none h s
  | _ => trivial

/-- A step of a call that owns something else. -/
lemma Owned.frame {s s' : Store} (h : pc.Owned s) {mine : Option ℕ}
    (hr : Store.Respects mine s s') (hapart : ∀ o, pc.owns = some o → mine ≠ some o) :
    pc.Owned s' := by
  cases pc with
  | content task => exact ReadTask.Owned.frame h hr hapart
  | _ => trivial

/-- What a step does to the store respects the other calls. -/
lemma Steps.respects (h : Steps R w pc pc' w') (hs : w.store.Sound G) (ho : pc.Owned w.store) :
    Store.Respects pc.owns w.store w'.store := by
  cases h with
  | put => exact hs.respects_putAttrs _ _
  | dropLookup => exact hs.respects_remove _
  | drop _ => exact hs.respects_remove _
  | invalidate => exact hs.respects_invalidateContent _
  | remove => exact hs.respects_remove _
  | unlist => exact hs.respects_invalidateChildren _
  | content _ h => exact h.respects hs ho
  | _ => exact .refl _ _

/-- After a step a call owns what it owned, or the object id that it has just taken. -/
lemma Steps.owns (h : Steps R w pc pc' w') {o : ℕ} (ho : pc'.owns = some o) :
    pc.owns = some o ∨ o = w.store.index.nextObject := by
  cases h with
  | cached _ => rw [owns_served] at ho; cases ho
  | uncachedOffline _ _ => rw [owns_rejected] at ho; cases ho
  | stamp _ => rw [owns_served] at ho; cases ho
  | drop _ => rw [owns_rejected] at ho; cases ho
  | fallback _ _ => rw [owns_served] at ho; cases ho
  | noFallback => rw [owns_rejected] at ho; cases ho
  | content _ h => exact h.owns ho
  | _ => cases ho

lemma Steps.owned (h : Steps R w pc pc' w') (hs : w.store.Sound G) (ho : pc.Owned w.store) :
    pc'.Owned w'.store := by
  cases h with
  | cached _ => exact owned_of_owns_none (owns_served _ _ _ _) _
  | uncachedOffline _ _ => exact owned_of_owns_none (owns_rejected _ _) _
  | stamp _ => exact owned_of_owns_none (owns_served _ _ _ _) _
  | drop _ => exact owned_of_owns_none (owns_rejected _ _) _
  | fallback _ _ => exact owned_of_owns_none (owns_served _ _ _ _) _
  | noFallback => exact owned_of_owns_none (owns_rejected _ _) _
  | content _ h => exact h.owned hs ho
  | _ => trivial

/-- The chunk invariant is kept by every step that does not record, and by recording the right
bytes. -/
lemma Steps.sound (h : Steps R w pc pc' w') (hs : w.store.Sound G) (ho : pc.Owned w.store)
    (hrecord : ∀ a chunk rest object b, pc = .content ⟨a, .record chunk rest object⟩ →
      w.store.object object = some b →
      G a.path.asStr (a.attrs.label w.store.chunkSize) chunk b) :
    w'.store.Sound G := by
  cases h with
  | put => exact hs.putAttrs _ _
  | dropLookup => exact hs.remove _
  | drop _ => exact hs.remove _
  | invalidate => exact hs.invalidateContent _
  | remove => exact hs.remove _
  | unlist => exact hs.invalidateChildren _
  | content _ h =>
      refine h.sound hs ho fun chunk rest object b hpc => ?_
      exact hrecord _ chunk rest object b (by rw [hpc])
  | _ => exact hs

/-! ## Calls that change nothing at the remote -/

/-- A call of `lookup`, `getattr` or `read` that has not begun. -/
def Asks : CallPc → Prop
  | .lookup _ _ => True
  | .getattr _ => True
  | .read _ _ _ => True
  | _ => False

/-- A call of `lookup`, `getattr` or `read`, which has not been told that `p` is missing. -/
def Reader (p : RemotePath) (w : World ρ) : CallPc → Prop
  | .write _ _ _ => False
  | .unlink _ _ => False
  | .writeRemote _ _ _ => False
  | .invalidate _ _ => False
  | .unstamp _ _ => False
  | .unlinkRemote _ _ _ _ => False
  | .remove _ _ _ _ => False
  | .unlist _ _ _ => False
  | .drop _ path => path ≠ p
  | .fallback _ path _ => path ≠ p
  | .negate parent name _ => ∃ child, w.childPath parent name = .ok child ∧ child ≠ p
  | _ => True

lemma Asks.reader (h : pc.Asks) (p : RemotePath) (w : World ρ) : pc.Reader p w := by
  cases pc with
  | lookup parent name => trivial
  | getattr node => trivial
  | read handle offset size => trivial
  | _ => exact h.elim

lemma Asks.begins (h : pc.Asks) : pc.Begins := by
  cases pc with
  | lookup parent name => trivial
  | getattr node => trivial
  | read handle offset size => trivial
  | _ => exact h.elim

lemma Reader.extends {p : RemotePath} (h : pc.Reader p w) (hext : w.Extends w') :
    pc.Reader p w' := by
  cases pc with
  | negate parent name answer =>
      obtain ⟨child, hchild, hne⟩ := h
      exact ⟨child, hext.childPath hchild, hne⟩
  | _ => exact h

lemma reader_served (caller : Caller) (path : RemotePath) (attributes : FileAttributes)
    (chunkSize : ℕ) (p : RemotePath) (w : World ρ) :
    (caller.served path attributes chunkSize).Reader p w := by
  cases caller <;> trivial

lemma reader_rejected (caller : Caller) (e : Error) (p : RemotePath) (w : World ρ) :
    (caller.rejected e).Reader p w := by
  cases caller <;> trivial

/-- The remote has a file at `p`, so that no call is told that it is missing. -/
lemma Steps.reader (hA : StatsTree R view) (h : Steps R w pc pc' w') (hw : w.state.Wf)
    {p : RemotePath} {node : RemoteNode} (hview : view w.conn.remote p.asStr = some node)
    (hres : pc.Resolved w) (hpc : pc.Reader p w) : pc'.Reader p w' := by
  have hext := h.extends hw
  obtain ⟨attrs, hstat, -⟩ := hA.stat_some p w.conn.remote node hview
  cases h with
  | cached _ => exact reader_served _ _ _ _ _ _
  | uncachedOffline _ _ => exact reader_rejected _ _ _ _
  | statMissing hmissing =>
      rintro rfl
      cases hstat.symm.trans (Conn.stat_eq hmissing).1
  | statFailed hfailed _ =>
      rintro rfl
      cases hstat.symm.trans (Conn.stat_eq hfailed).1
  | stamp _ => exact reader_served _ _ _ _ _ _
  | dropLookup => exact ⟨_, hext.childPath hres, hpc⟩
  | drop _ => exact reader_rejected _ _ _ _
  | fallback _ _ => exact reader_served _ _ _ _ _ _
  | noFallback => exact reader_rejected _ _ _ _
  | write _ => exact hpc
  | unlink _ => exact hpc
  | wrote _ => exact hpc
  | invalidate => exact hpc
  | unlinked _ => exact hpc
  | remove => exact hpc
  | unlist => exact hpc.elim
  | _ => trivial

lemma Steps.view_reader (hA : StatsTree R view) (h : Steps R w pc pc' w') {p : RemotePath}
    (hpc : pc.Reader p w) : view w'.conn.remote = view w.conn.remote := by
  cases h with
  | statFound h => rw [(Conn.stat_eq h).2]; exact hA.view_stat _ _
  | statMissing h => rw [(Conn.stat_eq h).2]; exact hA.view_stat _ _
  | statFailed h _ => rw [(Conn.stat_eq h).2]; exact hA.view_stat _ _
  | content _ h => exact h.view hA.toHonestReads
  | readThrough h => rw [(Conn.read_eq h).2]; exact hA.view_read _ _ _ _
  | wrote _ => exact hpc.elim
  | writeFailed _ => exact hpc.elim
  | unlinked _ => exact hpc.elim
  | unlinkFailed _ => exact hpc.elim
  | _ => rfl

end CallPc

/-! ## What the cache says about the file -/

namespace World

/-- No name that leads to the path has a negative entry. -/
def NoNegative (p : RemotePath) (w : World ρ) : Prop :=
  ∀ parent name t, w.state.negativeAt (parent, name) = some t → w.childPath parent name ≠ .ok p

variable (view) in
/-- The stored attributes of the path are those of what the remote has there. -/
def Stored (p : RemotePath) (w : World ρ) : Prop :=
  ∃ attrs ∈ w.store.getAttrs p, ∃ node ∈ view w.conn.remote p.asStr, Describes attrs node

instance (p : RemotePath) (w : World ρ) : Decidable (w.Stored view p) :=
  inferInstanceAs (Decidable (∃ _ ∈ w.store.getAttrs p, _))

variable (view) in
/-- Attributes that may be served without asking are those of what the remote has. -/
def Confirmed (p : RemotePath) (w : World ρ) : Prop :=
  ∀ t, w.state.validatedAt p = some t → w.Stored view p

/-- Chunks of `p` are recorded under the label of the file `f`, with its bytes. -/
def ChunksOf (p : RemotePath) (f : Bytes) (m : Option Int) (chunkSize : ℕ) (key : Str) (l : Label)
    (k : ℕ) (b : Bytes) : Prop :=
  key = p.asStr → l.size.toNat = f.length ∧ l.modified = m ∧ b = ReadTask.chunkOf f chunkSize k

variable (view) in
/-- The recorded chunks of the path are those of the file that the remote has there. -/
def Current (p : RemotePath) (w : World ρ) : Prop :=
  ∃ f m, view w.conn.remote p.asStr = some (.file f m) ∧
    w.store.Sound (ChunksOf p f m w.store.chunkSize)

end World

namespace CallPc

variable {w w' : World ρ} {pc pc' : CallPc} {p : RemotePath}

/-- The chunk and object that the next step of a call records. -/
def recording : CallPc → Option (ReadArgs × ℕ × ℕ)
  | .content ⟨a, .record chunk _ object⟩ => some (a, chunk, object)
  | _ => none

/-- The attributes that the next step of a call stores. -/
def storing : CallPc → Option (RemotePath × FileAttributes)
  | .put _ path attributes => some (path, attributes)
  | _ => none

/-- The path to which the next step of a call gives a time. -/
def stamping : CallPc → Option RemotePath
  | .stamp _ path _ => some path
  | _ => none

variable (view) in
/-- A chunk that is recorded for the path is one of the file that the remote has there, and is
recorded under its label. -/
def RecordsNow (p : RemotePath) (w : World ρ) (pc : CallPc) : Prop :=
  ∀ r ∈ pc.recording, r.1.path = p →
    ∃ node ∈ view w.conn.remote p.asStr, Describes r.1.attrs node ∧
      w.store.object r.2.2 = node.bytes.map fun f => ReadTask.chunkOf f w.store.chunkSize r.2.1

variable (view) in
/-- Attributes that are stored for the path are those of what the remote has there, and a time is
only given to such attributes. -/
def ConfirmsNow (p : RemotePath) (w : World ρ) (pc : CallPc) : Prop :=
  (∀ r ∈ pc.storing, r.1 = p → ∃ node ∈ view w.conn.remote p.asStr, Describes r.2 node) ∧
    ∀ q ∈ pc.stamping, q = p → w.Stored view p

instance (p : RemotePath) (w : World ρ) (pc : CallPc) : Decidable (pc.RecordsNow view p w) :=
  inferInstanceAs (Decidable (∀ r ∈ pc.recording, r.1.path = p → _))

instance (p : RemotePath) (w : World ρ) (pc : CallPc) : Decidable (pc.ConfirmsNow view p w) :=
  inferInstanceAs (Decidable ((∀ r ∈ pc.storing, r.1 = p → _) ∧ ∀ q ∈ pc.stamping, q = p → _))

/-- Negative entries of known nodes only, and paths of known nodes stay. -/
lemma noNegative_of {w w' : World ρ} (h : w.NoNegative p) (hw : w.state.Wf)
    (hneg : ∀ key t, w'.state.negativeAt key = some t → w.state.negativeAt key = some t)
    (hpath : ∀ n q, n.val < w.state.nextNode → w'.state.path n = some q →
      w.state.path n = some q) : w'.NoNegative p := by
  intro parent name t ht hchild
  have hold := hneg _ t ht
  obtain ⟨q, hq, hjoin⟩ := World.childPath_ok.mp hchild
  have hq' := hpath parent q (hw.negative_lt parent name t hold) hq
  exact h parent name t hold (World.childPath_ok.mpr ⟨q, hq', hjoin⟩)

lemma Steps.noNegative (h : Steps R w pc pc' w') (hw : w.state.Wf)
    (hpc : ∀ parent name answer, pc = .negate parent name answer →
      ∃ child, w.childPath parent name = .ok child ∧ child ≠ p)
    (hneg : w.NoNegative p) : w'.NoNegative p := by
  cases h with
  | @stampLookup parent name path attributes =>
      refine noNegative_of hneg hw (fun key t ht => ?_) fun n q hn hq => ?_
      · rw [State.negativeAt_intern, State.negativeAt_unnegate] at ht
        split at ht
        · cases ht
        · exact ht
      · rcases State.path_intern_cases hq with hold | ⟨-, rfl⟩
        · exact hold
        · exact absurd hn (lt_irrefl _)
  | @intern path attributes =>
      refine noNegative_of hneg hw (fun key t ht => ?_) fun n q hn hq => State.path_of_intern hn hq
      rwa [State.negativeAt_intern] at ht
  | @negate parent name answer =>
      intro parent' name' t ht hchild
      rw [State.negativeAt_negate] at ht
      split at ht
      · next hkey =>
          cases hkey
          obtain ⟨child, hchild', hne⟩ := hpc _ _ _ rfl
          exact hne (Except.ok.inj (hchild'.symm.trans hchild))
      · exact hneg parent' name' t ht hchild
  | _ => exact hneg

/-- What a step of a reader does to the stored attributes of the path. -/
lemma Steps.getAttrs_cases (h : Steps R w pc pc' w') (hpc : pc.Reader p w) :
    w'.store.getAttrs p = w.store.getAttrs p ∨
      (∃ caller attributes, pc = .put caller p attributes ∧
        w'.store.getAttrs p = some attributes) ∨ w.store.getAttrs p = none := by
  cases h with
  | @put caller path attributes =>
      by_cases hp : p = path
      · subst hp
        exact .inr (.inl ⟨caller, attributes, rfl, Store.getAttrs_putAttrs_self _ _ _⟩)
      · refine .inl ?_
        rw [Store.getAttrs_eq, Store.getAttrs_eq, Store.entry_putAttrs, if_neg]
        exact fun heq => hp (RemotePath.ext heq)
  | dropLookup =>
      refine .inl ?_
      rw [Store.getAttrs_eq, Store.getAttrs_eq, Store.entry_remove, if_neg]
      exact fun heq => hpc (RemotePath.ext heq.symm)
  | drop _ =>
      refine .inl ?_
      rw [Store.getAttrs_eq, Store.getAttrs_eq, Store.entry_remove, if_neg]
      exact fun heq => hpc (RemotePath.ext heq.symm)
  | content _ h =>
      cases h with
      | @record chunk rest object =>
          -- an entry that is there keeps its attributes
          rw [Store.getAttrs_eq, Store.getAttrs_eq, Store.entry_recordChunk]
          split
          · next heq =>
              rw [heq]
              cases w.store.entry _ with
              | none => exact .inr (.inr rfl)
              | some e => exact .inl rfl
          · exact .inl rfl
      | _ => exact .inl rfl
  | invalidate => exact hpc.elim
  | remove => exact hpc.elim
  | unlist => exact hpc.elim
  | _ => exact .inl rfl

lemma Steps.stored (hA : StatsTree R view) (h : Steps R w pc pc' w') (hpc : pc.Reader p w)
    (hnow : pc.ConfirmsNow view p w) (hs : w.Stored view p) : w'.Stored view p := by
  have hview := congrFun (h.view_reader hA hpc) p.asStr
  obtain ⟨attrs, hattrs, node, hnode, hdesc⟩ := hs
  rcases h.getAttrs_cases hpc with hsame | ⟨caller, attributes, rfl, hput⟩ | hnone
  · exact ⟨attrs, hsame.trans hattrs, node, hview.trans hnode, hdesc⟩
  · obtain ⟨node', hnode', hdesc'⟩ := hnow.1 _ rfl rfl
    exact ⟨attributes, hput, node', hview.trans hnode', hdesc'⟩
  · rw [hnone] at hattrs
    cases hattrs

lemma Steps.confirmed (hA : StatsTree R view) (h : Steps R w pc pc' w') (hpc : pc.Reader p w)
    (hnow : pc.ConfirmsNow view p w) (hc : w.Confirmed view p) : w'.Confirmed view p := by
  intro t ht
  refine h.stored hA hpc hnow ?_
  -- either the time was there, or this step gives it
  cases h with
  | @stampLookup parent name path attributes =>
      rw [State.validatedAt_intern, State.validatedAt_unnegate, State.validatedAt_stamp] at ht
      split at ht
      · next hp => exact hnow.2 _ rfl hp.symm
      · exact hc t ht
  | @stamp caller path attributes _ =>
      rw [State.validatedAt_stamp] at ht
      split at ht
      · next hp => exact hnow.2 _ rfl hp.symm
      · exact hc t ht
  | intern =>
      rw [State.validatedAt_intern] at ht
      exact hc t ht
  | unstamp => exact hpc.elim
  | _ => exact hc t ht

/-- Recording chunks of the file keeps the chunks current. -/
lemma Steps.current (hA : StatsTree R view) (h : Steps R w pc pc' w') (hw : w.state.Wf)
    (hpc : pc.Reader p w) (hown : pc.Owned w.store) (hnow : pc.RecordsNow view p w)
    (hc : w.Current view p) : w'.Current view p := by
  have hview := congrFun (h.view_reader hA hpc) p.asStr
  obtain ⟨f, m, hf, hs⟩ := hc
  refine ⟨f, m, hview.trans hf, ?_⟩
  rw [(h.extends hw).chunkSize]
  refine h.sound hs hown fun a chunk rest object b heq hb hkey => ?_
  subst heq
  obtain ⟨node, hnode, hdesc, hobject⟩ := hnow _ rfl (RemotePath.ext hkey)
  cases hf.symm.trans hnode
  rw [hobject] at hb
  exact ⟨hdesc.2.1, hdesc.2.2, (Option.some.inj hb).symm⟩

/-! ## The write -/

variable (view) in
/-- The assertion of the `write`: once it has invalidated the content, the recorded chunks are those
of the file as it is now, and once it has returned, so are attributes that may be served. -/
def Writes (p : RemotePath) (handle : FileHandle) (w : World ρ) : CallPc → Prop
  | .write handle' _ _ => handle' = handle
  | .writeRemote path _ _ => path = p
  | .invalidate path _ => path = p
  | .unstamp path _ => path = p ∧ w.Current view p
  | .done answer => ∀ n, answer = .written (.ok n) → w.Current view p ∧ w.Confirmed view p
  | _ => False

/-- The `write` has returned. -/
def returned : CallPc → Bool
  | .done (.written (.ok _)) => true
  | _ => false

/-- The content of the file has been invalidated. -/
def invalidated : CallPc → Bool
  | .unstamp _ _ => true
  | pc => pc.returned

lemma Writes.mono {handle : FileHandle} (h : Writes view p handle w pc)
    (hcurrent : pc.invalidated → w.Current view p → w'.Current view p)
    (hconfirmed : pc.returned → w.Confirmed view p → w'.Confirmed view p) :
    Writes view p handle w' pc := by
  cases pc with
  | unstamp path written => exact ⟨h.1, hcurrent rfl h.2⟩
  | done answer =>
      rintro n rfl
      obtain ⟨hcur, hconf⟩ := h n rfl
      exact ⟨hcurrent rfl hcur, hconfirmed rfl hconf⟩
  | _ => exact h

/-- The path of the write stays a file. -/
lemma Steps.view_write (hW : WritesFiles R view) {handle : FileHandle} (h : Steps R w pc pc' w')
    (hpc : Writes view p handle w pc) {f : Bytes} {m : Option Int}
    (hview : view w.conn.remote p.asStr = some (.file f m)) :
    ∃ f' m', view w'.conn.remote p.asStr = some (.file f' m') := by
  cases h with
  | wrote hwrite =>
      obtain rfl := hpc
      rw [(Conn.write_eq hwrite).2]
      exact hW.write_file _ _ _ _ _ _ hview
  | writeFailed hwrite =>
      obtain rfl := hpc
      rw [(Conn.write_eq hwrite).2]
      exact hW.write_file _ _ _ _ _ _ hview
  | write _ => exact ⟨f, m, hview⟩
  | writeBad => exact ⟨f, m, hview⟩
  | invalidate => exact ⟨f, m, hview⟩
  | unstamp => exact ⟨f, m, hview⟩
  | idle => exact ⟨f, m, hview⟩
  | _ => exact hpc.elim

/-- Without content at the path, no chunk of it is recorded. -/
lemma sound_of_no_content {G : Str → Label → ℕ → Bytes → Prop} {s : Store} (h : s.Sound G)
    (hnone : s.content p.asStr = none) (f : Bytes) (m : Option Int) (chunkSize : ℕ) :
    s.Sound (World.ChunksOf p f m chunkSize) := by
  refine h.mono fun key c k b hc _ hkey => ?_
  rw [hkey, hnone] at hc
  cases hc

lemma Steps.writes {G : Str → Label → ℕ → Bytes → Prop} {handle : FileHandle} {file : OpenFile}
    (h : Steps R w pc pc' w') (hs : w.store.Sound G) (hfile : w.state.file handle = some file)
    (hp : file.path = p) {f : Bytes} {m : Option Int}
    (hview : view w.conn.remote p.asStr = some (.file f m)) (hpc : Writes view p handle w pc) :
    Writes view p handle w' pc' := by
  cases h with
  | write hfile' =>
      obtain rfl := hpc
      rw [hfile] at hfile'
      cases hfile'
      exact hp
  | writeBad => exact nofun
  | wrote _ => exact hpc
  | writeFailed _ => exact nofun
  | invalidate =>
      obtain rfl := hpc
      refine ⟨rfl, f, m, hview, sound_of_no_content (hs.invalidateContent _) ?_ f m _⟩
      rw [Store.content, Store.entry_invalidateContent, if_pos rfl]
      cases w.store.entry _ <;> rfl
  | unstamp =>
      obtain ⟨rfl, hcurrent⟩ := hpc
      rintro n -
      refine ⟨hcurrent, fun t ht => ?_⟩
      rw [State.validatedAt_unstamp, if_pos rfl] at ht
      cases ht
  | idle => exact hpc
  | _ => exact hpc.elim

end CallPc

/-! ## Sequential runs -/

namespace World

/-- Every call keeps the bookkeeping of objects. -/
lemma sound_outcome {w w' : World ρ} {call : Call} (h : Outcome R w call w')
    (hs : w.store.Sound fun _ _ _ _ => True) : w'.store.Sound fun _ _ _ _ => True := by
  induction h with
  | lookupFound _ _ _ _ _ => exact hs.putAttrs _ _
  | lookupMissing _ _ _ => exact hs.remove _
  | getattrFound _ _ _ _ => exact hs.putAttrs _ _
  | getattrMissing _ _ _ => exact hs.remove _
  | listed _ _ _ _ _ => exact hs.recordListing _ _
  | listedPartly _ _ _ _ _ => exact hs.recordListing _ _
  | truncated _ _ _ => exact hs.invalidateContent _
  | readRejected _ _ _ ih => exact ih
  | readContent _ _ _ _ ih => exact ReadTask.sound_read ih _ _ _ _ _
  | wrote _ _ => exact hs.invalidateContent _
  | created _ _ _ => exact (hs.putAttrs _ _).invalidateChildren _
  | madeDir _ _ => exact (hs.putAttrs _ _).invalidateChildren _
  | unlinked _ _ => exact (hs.remove _).invalidateChildren _
  | removedDir _ _ => exact (hs.remove _).invalidateChildren _
  | renamed _ _ =>
      refine Store.Sound.invalidateChildren (Store.Sound.invalidateChildren ?_ _) _
      exact hs.rename (fun _ _ _ _ _ => trivial) (fun _ _ _ _ _ _ => trivial)
        (fun _ _ _ _ _ _ _ _ _ => trivial)
  | setattrDone _ _ _ => exact hs.putAttrs _ _
  | _ => exact hs

lemma sound_step (w : World ρ) (e : Event ρ) (he : InSession e)
    (hs : w.store.Sound fun _ _ _ _ => True) :
    (w.step R e).store.Sound fun _ _ _ _ => True := by
  cases e with
  | call call => exact sound_outcome (outcome_exec R w call) hs
  | tick d => exact hs
  | external remote => exact hs
  | restart config => exact he.elim

end World

/-! ## A call that begins after the write -/

/-- The call for which a path is confirmed, where it reads the content at `p`. -/
def Caller.For (p : RemotePath) (call : CallPc) : Caller → Prop
  | .lookup parent name => call = .lookup parent name
  | .getattr node => call = .getattr node
  | .read file offset size => file.path = p ∧ ∃ handle, call = .read handle offset size

namespace CallPc

variable {w w' : World ρ} {pc pc' call : CallPc} {p : RemotePath} {f : Bytes} {m : Option Int}

/-- The answer is the one that the file asks for. -/
def Fulfils (f : Bytes) (m : Option Int) : CallPc → Answer → Prop
  | .lookup _ _, .metadata (.ok metadata) => Describes metadata.attributes (.file f m)
  | .getattr _, .metadata (.ok metadata) => Describes metadata.attributes (.file f m)
  | .read _ offset size, .data (.ok data) => data = Store.requested f offset size
  | _, _ => False

/-- The call asks about `p`. -/
def Concerns (p : RemotePath) (w : World ρ) : CallPc → Prop
  | .lookup parent name => w.childPath parent name = .ok p
  | .getattr node => w.state.path node = some p
  | .read handle _ _ => ∃ file, w.state.file handle = some file ∧ file.path = p ∧
      w.state.path file.node = some p
  | _ => False

variable (view) in
/-- **The assertion of a call that begins after the write**: what it has learned is about the file
as it is now. -/
def Sees (p : RemotePath) (f : Bytes) (m : Option Int) (call : CallPc) (w : World ρ) :
    CallPc → Prop
  | .lookup parent name => call = .lookup parent name ∧ w.childPath parent name = .ok p
  | .getattr node => call = .getattr node ∧ w.state.path node = some p
  | .read handle offset size => call = .read handle offset size ∧
      ∃ file, w.state.file handle = some file ∧ file.path = p ∧ w.state.path file.node = some p
  | .negative parent name child => call = .lookup parent name ∧ child = p ∧
      w.childPath parent name = .ok p
  | .resolve file offset size => (∃ handle, call = .read handle offset size) ∧ file.path = p ∧
      w.state.path file.node = some p
  | .fresh caller path => caller.For p call ∧ path = p
  | .cached caller path => caller.For p call ∧ path = p ∧ w.Stored view p
  | .stat caller path => caller.For p call ∧ path = p
  | .put caller path attributes => caller.For p call ∧ path = p ∧ Describes attributes (.file f m)
  | .stamp caller path attributes => caller.For p call ∧ path = p ∧
      Describes attributes (.file f m)
  | .intern _ attributes => (∃ parent name, call = .lookup parent name) ∧
      Describes attributes (.file f m)
  | .content task => (∃ handle, call = .read handle task.args.offset task.args.size) ∧
      task.args.path = p ∧ Describes task.args.attrs (.file f m) ∧
      ReadTask.Serves f task.args w.store task.pc
  | .done answer => Fulfils f m call answer
  | _ => False

lemma sees_of_concerns (h : call.Concerns p w) : Sees view p f m call w call := by
  cases call with
  | lookup parent name => exact ⟨rfl, h⟩
  | getattr node => exact ⟨rfl, h⟩
  | read handle offset size => exact ⟨rfl, h⟩
  | _ => exact h.elim

lemma sees_served {caller : Caller} (hfor : caller.For p call) {attributes : FileAttributes}
    (hdesc : Describes attributes (.file f m)) (path : RemotePath) (w : World ρ) :
    Sees view p f m call w (caller.served path attributes w.store.chunkSize) := by
  cases caller with
  | lookup parent name => exact ⟨⟨parent, name, hfor⟩, hdesc⟩
  | getattr node =>
      obtain rfl := hfor
      exact hdesc
  | read file offset size =>
      obtain ⟨hp, hcall⟩ := hfor
      exact ⟨hcall, hp, hdesc, ReadTask.serves_start _ _ hdesc.2.1⟩

/-- A step of the call itself. -/
lemma Steps.sees (hA : StatsTree R view) (h : Steps R w pc pc' w') (hw : w.state.Wf)
    (hmode : w.config.cacheMode = .onDemand) (hneg : w.NoNegative p)
    (hview : view w.conn.remote p.asStr = some (.file f m)) (hconf : w.Confirmed view p)
    (hs : w.store.Sound (World.ChunksOf p f m w.store.chunkSize))
    (hover : Store.NoOverflow f.length w.store.chunkSize)
    (hpc : Sees view p f m call w pc) : Sees view p f m call w' pc' := by
  have hext := h.extends hw
  have honline : w.offline = false := by simp [World.offline, hmode]
  obtain ⟨attrs, hstat, hattrs⟩ := hA.stat_some p w.conn.remote _ hview
  cases h with
  | lookup hchild =>
      obtain ⟨rfl, hp⟩ := hpc
      exact ⟨rfl, Except.ok.inj (hchild.symm.trans hp), hp⟩
  | lookupBad hbad => cases hbad.symm.trans hpc.2
  | getattr hpath =>
      obtain ⟨rfl, hp⟩ := hpc
      exact ⟨rfl, Option.some.inj (hpath.symm.trans hp)⟩
  | getattrBad hbad => cases hbad.symm.trans hpc.2
  | read hfile _ =>
      obtain ⟨rfl, file, hfile', hp, hnode⟩ := hpc
      obtain rfl := Option.some.inj (hfile.symm.trans hfile')
      exact ⟨⟨_, rfl⟩, hp, hnode⟩
  | readDirect _ hmode' => cases hmode.symm.trans hmode'
  | readOffline _ hmode' => cases hmode.symm.trans hmode'
  | readBad hbad =>
      obtain ⟨-, file, hfile, -⟩ := hpc
      cases hbad.symm.trans hfile
  | negativeHit hhit =>
      obtain ⟨t, ht, -⟩ := (World.freshNegative_iff honline).mp hhit
      exact absurd hpc.2.2 (hneg _ _ t ht)
  | negativeMiss _ =>
      obtain ⟨rfl, rfl, -⟩ := hpc
      exact ⟨rfl, rfl⟩
  | resolve hpath =>
      obtain ⟨hcall, hp, hnode⟩ := hpc
      exact ⟨⟨hp, hcall⟩, Option.some.inj (hpath.symm.trans hnode)⟩
  | resolveBad hbad => cases hbad.symm.trans hpc.2.2
  | fresh hfresh =>
      obtain ⟨hfor, rfl⟩ := hpc
      obtain ⟨t, ht, -⟩ := (World.metadataFresh_iff honline).mp hfresh
      exact ⟨hfor, rfl, hconf t ht⟩
  | expired _ => exact hpc
  | cached hfound =>
      obtain ⟨hfor, rfl, a, ha, node, hnode, hdesc⟩ := hpc
      cases hfound.symm.trans ha
      cases hview.symm.trans hnode
      exact sees_served hfor hdesc _ _
  | uncached _ _ => exact ⟨hpc.1, hpc.2.1⟩
  | uncachedOffline _ hoffline => cases honline.symm.trans hoffline
  | statFound hfound =>
      obtain ⟨hfor, rfl⟩ := hpc
      obtain rfl := Except.ok.inj (hstat.symm.trans (Conn.stat_eq hfound).1)
      exact ⟨hfor, rfl, hattrs⟩
  | statMissing hmissing =>
      obtain ⟨-, rfl⟩ := hpc
      cases hstat.symm.trans (Conn.stat_eq hmissing).1
  | statFailed hfailed _ =>
      obtain ⟨-, rfl⟩ := hpc
      cases hstat.symm.trans (Conn.stat_eq hfailed).1
  | put => exact hpc
  | stampLookup =>
      obtain ⟨rfl, -, hdesc⟩ := hpc
      exact hdesc
  | stamp _ => exact sees_served hpc.1 hpc.2.2 _ _
  | intern =>
      obtain ⟨⟨parent, name, rfl⟩, hdesc⟩ := hpc
      exact hdesc
  | @content a pc pc' s _ hstep =>
      obtain ⟨hcall, hp, hdesc, hserves⟩ := hpc
      refine ⟨hcall, hp, hdesc, ?_⟩
      refine hstep.serves hA.toHonestReads hs (by rw [hp]; exact hview) hdesc.2.1 ?_ hover hserves
      exact fun k b hb => (hb (by rw [hp])).2.2
  | @contentDone a answer =>
      obtain ⟨⟨handle, rfl⟩, -, -, hanswer⟩ := hpc
      have hok : answer = .ok (Store.requested f a.offset a.size) := hanswer
      rw [hok]
      exact rfl
  | idle => exact hpc
  | _ => exact hpc.elim

/-- The objects that a call has in its snapshot and still has to open. -/
def toOpen : CallPc → List ℕ
  | .content task => ReadTask.toOpen task.pc
  | _ => []

/-- The objects that the next step of a read deletes. -/
def deletes (s : Store) : CallPc → List ℕ
  | .content task => task.deletes s
  | _ => []

/-- The label of attributes of one file. -/
lemma label_eq {a b : FileAttributes} (ha : Describes a (.file f m)) (hb : Describes b (.file f m))
    (chunkSize : ℕ) : a.label chunkSize = b.label chunkSize := by
  have hsize : a.size = b.size := UInt64.toNat_inj.mp (ha.2.1.trans hb.2.1.symm)
  rw [FileAttributes.label, FileAttributes.label, hsize, ha.2.2, hb.2.2]

/-- Attributes of the file make no recorded chunk of it stale. -/
lemma content_putAttrs_now {s : Store} {chunkSize : ℕ}
    (hs : s.Sound (World.ChunksOf p f m chunkSize))
    {path : RemotePath} {attributes : FileAttributes}
    (hnow : path = p → Describes attributes (.file f m)) {c : ContentRef} {k o : ℕ}
    (hrec : s.Recorded p.asStr c k o) : (s.putAttrs path attributes).content p.asStr = some c := by
  have hc : (s.entry p.asStr).bind Entry.content = some c := hrec.1
  rw [Store.content, Store.entry_putAttrs]
  split
  · next hkey =>
      obtain rfl : path = p := RemotePath.ext hkey.symm
      obtain ⟨b, -, hG⟩ := hs.good _ _ _ _ hrec
      obtain ⟨hsize, hm, -⟩ := hG rfl
      have hdesc := hnow rfl
      have hfresh : ¬ c.StaleFor attributes := by
        rintro (hne | hne)
        · exact hne (UInt64.toNat_inj.mp (hsize.trans hdesc.2.1.symm))
        · exact hne (hm.trans hdesc.2.2.symm)
      simp [keptContent, hc, hfresh]
  · exact hc

/-- The content part of the call is not disturbed by the steps of another. -/
lemma Steps.serves_frame {other other' : CallPc} (h : Steps R w other other' w') {a : ReadArgs}
    {pc : ReadPc} (hserves : ReadTask.Serves f a w.store pc) (hown : ReadTask.Owned pc w.store)
    (hp : a.path = p) (hdesc : Describes a.attrs (.file f m))
    (hview : view w.conn.remote p.asStr = some (.file f m))
    (hs : w.store.Sound (World.ChunksOf p f m w.store.chunkSize)) (hreader : other.Reader p w)
    (hother : other.Owned w.store)
    (hapart : ∀ o, ReadTask.owns pc = some o → other.owns ≠ some o)
    (hrecords : other.RecordsNow view p w) (hconfirms : other.ConfirmsNow view p w)
    (hkeep : ∀ o ∈ ReadTask.toOpen pc, o ∉ other.deletes w.store) :
    ReadTask.Serves f a w'.store pc := by
  subst hp
  cases h with
  | @put caller path attributes =>
      refine hserves.frame_shrinks hown hs (hs.respects_putAttrs _ _)
        (Store.shrinks_putAttrs _ _ _) fun c k o hrec =>
          content_putAttrs_now hs (fun heq => ?_) hrec
      obtain ⟨node, hnode, hdesc'⟩ := hconfirms.1 _ rfl heq
      cases hview.symm.trans hnode
      exact hdesc'
  | dropLookup =>
      refine hserves.frame_shrinks hown hs (hs.respects_remove _) (Store.shrinks_remove _ _)
        fun c k o hrec => ?_
      rw [Store.content, Store.entry_remove, if_neg fun heq => hreader (RemotePath.ext heq.symm)]
      exact hrec.1
  | drop _ =>
      refine hserves.frame_shrinks hown hs (hs.respects_remove _) (Store.shrinks_remove _ _)
        fun c k o hrec => ?_
      rw [Store.content, Store.entry_remove, if_neg fun heq => hreader (RemotePath.ext heq.symm)]
      exact hrec.1
  | @content b other other' s _ hstep =>
      refine hserves.frame_steps hown hstep hs hother hapart ?_ hkeep
      rintro chunk rest object rfl k - hk
      by_cases hpath : b.path = a.path
      · -- a chunk of the same version is recorded
        obtain ⟨node, hnode, hdesc', -⟩ := hrecords _ rfl hpath
        cases hview.symm.trans hnode
        rw [hpath, Store.cachedChunk_congr (label_eq hdesc hdesc' _),
          Store.cachedChunk_recordChunk]
        split
        · rfl
        · rw [Store.cachedChunk_congr (label_eq hdesc' hdesc _)]
          exact hk
      · rw [Store.cachedChunk, Store.content_recordChunk,
          if_neg fun heq => hpath (RemotePath.ext heq.symm), Store.recordChunk_chunkSize]
        exact hk
  | invalidate => exact hreader.elim
  | remove => exact hreader.elim
  | unlist => exact hreader.elim
  | _ => exact hserves

/-- A step of another call. -/
lemma Sees.frame (hA : StatsTree R view) {other other' : CallPc} (h : Steps R w other other' w')
    (hw : w.state.Wf) (hpc : Sees view p f m call w pc) (hown : pc.Owned w.store)
    (hview : view w.conn.remote p.asStr = some (.file f m))
    (hs : w.store.Sound (World.ChunksOf p f m w.store.chunkSize)) (hreader : other.Reader p w)
    (hother : other.Owned w.store) (hapart : ∀ o, pc.owns = some o → other.owns ≠ some o)
    (hrecords : other.RecordsNow view p w) (hconfirms : other.ConfirmsNow view p w)
    (hkeep : ∀ o ∈ pc.toOpen, o ∉ other.deletes w.store) : Sees view p f m call w' pc := by
  have hext := h.extends hw
  cases pc with
  | lookup parent name => exact ⟨hpc.1, hext.childPath hpc.2⟩
  | getattr node => exact ⟨hpc.1, hext.path _ _ hpc.2⟩
  | read handle offset size =>
      obtain ⟨hcall, file, hfile, hp, hnode⟩ := hpc
      exact ⟨hcall, file, (hext.file _).trans hfile, hp, hext.path _ _ hnode⟩
  | negative parent name child => exact ⟨hpc.1, hpc.2.1, hext.childPath hpc.2.2⟩
  | resolve file offset size => exact ⟨hpc.1, hpc.2.1, hext.path _ _ hpc.2.2⟩
  | cached caller path => exact ⟨hpc.1, hpc.2.1, h.stored hA hreader hconfirms hpc.2.2⟩
  | content task =>
      obtain ⟨hcall, hp, hdesc, hserves⟩ := hpc
      exact ⟨hcall, hp, hdesc, h.serves_frame hserves hown hp hdesc hview hs hreader hother hapart
        hrecords hconfirms hkeep⟩
  | _ => exact hpc

end CallPc

/-! ## Progress -/

/-- How many steps a call takes at most once its path is confirmed. -/
def Caller.rest (chunkSize : ℕ) : Caller → ℕ
  | .read _ _ size => ReadTask.workBound chunkSize size.toNat + 1
  | _ => 1

namespace CallPc

variable {w w' : World ρ} {pc pc' : CallPc}

/-- How many steps a call takes at most from where it is. -/
def work (chunkSize : ℕ) : CallPc → ℕ
  | .lookup _ _ => 8
  | .getattr _ => 7
  | .read _ _ size => ReadTask.workBound chunkSize size.toNat + 8
  | .write _ _ _ => 4
  | .unlink _ _ => 5
  | .negative _ _ _ => 7
  | .resolve _ _ size => ReadTask.workBound chunkSize size.toNat + 7
  | .fresh caller _ => caller.rest chunkSize + 5
  | .cached caller _ => caller.rest chunkSize + 4
  | .stat caller _ => caller.rest chunkSize + 3
  | .put caller _ _ => caller.rest chunkSize + 2
  | .stamp caller _ _ => caller.rest chunkSize + 1
  | .drop caller _ => caller.rest chunkSize + 1
  | .fallback caller _ _ => caller.rest chunkSize + 1
  | .intern _ _ => 1
  | .negate _ _ _ => 1
  | .content task => ReadTask.work task.args chunkSize task.pc + 1
  | .readThrough _ _ _ => 1
  | .writeRemote _ _ _ => 3
  | .invalidate _ _ => 2
  | .unstamp _ _ => 1
  | .unlinkRemote _ _ _ _ => 4
  | .remove _ _ _ _ => 3
  | .unlist _ _ _ => 2
  | .done _ => 0

lemma work_served (caller : Caller) (path : RemotePath) (attributes : FileAttributes)
    (chunkSize : ℕ) :
    (caller.served path attributes chunkSize).work chunkSize ≤ caller.rest chunkSize := by
  cases caller with
  | lookup parent name => exact le_refl _
  | getattr node => exact Nat.zero_le _
  | read file offset size => exact Nat.succ_le_succ (ReadTask.work_start_le _ _)

lemma work_rejected (caller : Caller) (e : Error) (chunkSize : ℕ) :
    (caller.rejected e).work chunkSize = 0 := by
  cases caller <;> rfl

lemma Steps.work (h : Steps R w pc pc' w') :
    pc'.work w.store.chunkSize ≤ pc.work w.store.chunkSize - 1 := by
  cases h with
  | cached _ =>
      refine le_trans (work_served _ _ _ _) ?_
      simp only [CallPc.work]
      omega
  | uncachedOffline _ _ => rw [work_rejected]; exact Nat.zero_le _
  | stamp _ => exact work_served _ _ _ _
  | drop _ => rw [work_rejected]; exact Nat.zero_le _
  | fallback _ _ => exact work_served _ _ _ _
  | noFallback => rw [work_rejected]; exact Nat.zero_le _
  | @content a pc pc' _ hpc hstep =>
      have hwork : ReadTask.work a w.store.chunkSize pc' ≤
          ReadTask.work a w.store.chunkSize pc - 1 := hstep.work
      have hpos := ReadTask.work_pos a w.store.chunkSize hpc
      simp only [CallPc.work]
      omega
  | _ => simp [CallPc.work, Caller.rest]

/-- A call that has no work left has ended. -/
lemma done_of_work {chunkSize : ℕ} (h : pc.work chunkSize = 0) : ∃ answer, pc = .done answer := by
  cases pc with
  | done answer => exact ⟨answer, rfl⟩
  | _ => simp [CallPc.work] at h

end CallPc

/-! ## Any number of calls and one write -/

namespace Calls

variable {ι : Type} [DecidableEq ι] {i : ι} {p : RemotePath} {handle : FileHandle}
  {x : Pool ι CallPc (World ρ)}

variable (view) in
/-- Late steps: from its invalidation on, chunks of the file that the `write` has left are recorded
for `p`; from its return on, attributes of this file are stored for `p` and given a time. -/
def Timely (i : ι) (p : RemotePath) (x : Pool ι CallPc (World ρ)) : Move ι ℕ → Prop
  | .task k => ((x.tasks i).invalidated → (x.tasks k).RecordsNow view p x.shared) ∧
      ((x.tasks i).returned → (x.tasks k).ConfirmsNow view p x.shared)
  | .env _ => True

instance (i : ι) (p : RemotePath) (x : Pool ι CallPc (World ρ)) (move : Move ι ℕ) :
    Decidable (Timely view i p x move) :=
  match move with
  | .task _ => inferInstanceAs (Decidable (((x.tasks i).invalidated → _) ∧ (_ → _)))
  | .env _ => isTrue trivial

variable (view) in
/-- What holds of the session. -/
structure Serving (p : RemotePath) (handle : FileHandle) (w : World ρ) : Prop where
  wf : w.state.Wf
  mode : w.config.cacheMode = .onDemand
  file : ∃ file, w.state.file handle = some file ∧ file.path = p
  shown : ∃ f m, view w.conn.remote p.asStr = some (.file f m)
  noNegative : w.NoNegative p
  sound : w.store.Sound fun _ _ _ _ => True

variable (view) in
/-- What holds of each call. -/
structure Role (i : ι) (p : RemotePath) (handle : FileHandle) (k : ι) (pc : CallPc)
    (w : World ρ) : Prop where
  resolved : pc.Resolved w
  owned : pc.Owned w.store
  writes : k = i → pc.Writes view p handle w
  reads : k ≠ i → pc.Reader p w

variable (view) in
/-- **The invariant of one write of `p` among readers.** -/
def Writing (i : ι) (p : RemotePath) (handle : FileHandle) : Pool ι CallPc (World ρ) → Prop :=
  Outline (Serving view p handle) (Role view i p handle)
    (fun pc other => ∀ o, pc.owns = some o → other.owns ≠ some o)

/-- A call that steps stays apart from the others: what it takes is new. -/
lemma apart_step {pc pc' other : CallPc} {w w' : World ρ} (h : CallPc.Steps R w pc pc' w')
    (hother : other.Owned w.store) (hapart : ∀ o, pc.owns = some o → other.owns ≠ some o) :
    (∀ o, pc'.owns = some o → other.owns ≠ some o) ∧
      ∀ o, other.owns = some o → pc'.owns ≠ some o := by
  have hnew : ∀ o, pc'.owns = some o → other.owns ≠ some o := by
    intro o ho hou
    rcases h.owns ho with hold | rfl
    · exact hapart o hold hou
    · cases other with
      | content task => exact Nat.lt_irrefl _ (hother.free _ hou).1
      | _ => cases hou
  exact ⟨hnew, fun o hou ho => hnew o ho hou⟩

/-- The session goes on with every step. -/
lemma Serving.step (hA : StatsTree R view) (hW : WritesFiles R view) {k : ι} {pc pc' : CallPc}
    {w w' : World ρ} (hx : Serving view p handle w) (h : CallPc.Steps R w pc pc' w')
    (hrole : Role view i p handle k pc w) : Serving view p handle w' := by
  have hext := h.extends hx.wf
  refine ⟨h.wf hx.wf hrole.resolved, ?_, ?_, ?_, ?_, ?_⟩
  · rw [hext.config]
    exact hx.mode
  · obtain ⟨file, hfile, hp⟩ := hx.file
    exact ⟨file, (hext.file handle).trans hfile, hp⟩
  · obtain ⟨f, m, hview⟩ := hx.shown
    by_cases hk : k = i
    · exact h.view_write hW (hrole.writes hk) hview
    · exact ⟨f, m, (congrFun (h.view_reader hA (hrole.reads hk)) _).trans hview⟩
  · refine h.noNegative hx.wf (fun parent name answer heq => ?_) hx.noNegative
    subst heq
    by_cases hk : k = i
    · exact (hrole.writes hk).elim
    · exact hrole.reads hk
  · exact h.sound hx.sound hrole.owned fun _ _ _ _ _ _ _ => trivial

omit [DecidableEq ι] in
/-- What a call can rely on is not disturbed by the steps of another. -/
lemma Role.frame (hA : StatsTree R view) {j k : ι} (hjk : j ≠ k) {pc pc' other : CallPc}
    {w w' : World ρ} (hx : Serving view p handle w) (h : CallPc.Steps R w pc pc' w')
    (hrole : Role view i p handle k pc w) (hother : Role view i p handle j other w)
    (hapart : ∀ o, other.owns = some o → pc.owns ≠ some o)
    (hrecords : j = i → other.invalidated → pc.RecordsNow view p w)
    (hconfirms : j = i → other.returned → pc.ConfirmsNow view p w) :
    Role view i p handle j other w' := by
  have hext := h.extends hx.wf
  refine ⟨hother.resolved.extends hext,
    hother.owned.frame (h.respects hx.sound hrole.owned) hapart, fun hj => ?_, fun hj => ?_⟩
  · have hreads : pc.Reader p w := hrole.reads fun hk => hjk (hj.trans hk.symm)
    refine (hother.writes hj).mono (fun hinv => ?_) (fun hret => ?_)
    · exact h.current hA hx.wf hreads hrole.owned (hrecords hj hinv)
    · exact h.confirmed hA hreads (hconfirms hj hret)
  · exact (hother.reads hj).extends hext

lemma writing_step (hA : StatsTree R view) (hW : WritesFiles R view) (x : Pool ι CallPc (World ρ))
    (move : Move ι ℕ) (htimely : Timely view i p x move) (hx : Writing view i p handle x) :
    Writing view i p handle (step R x move) := by
  cases move with
  | env d =>
      have hs := hx.shared
      refine hx.step_env ⟨hs.wf, hs.mode, hs.file, hs.shown, hs.noNegative, hs.sound⟩ fun k => ?_
      have hext : x.shared.Extends (tick d x.shared) := ⟨rfl, rfl, fun _ => rfl, fun _ _ => id⟩
      have hrole := hx.task k
      exact ⟨hrole.resolved.extends hext, hrole.owned,
        fun hk => (hrole.writes hk).mono (fun _ => id) (fun _ => id),
        fun hk => (hrole.reads hk).extends hext⟩
  | task k =>
      have hsteps := steps_task R x k
      have hrole := hx.task k
      obtain ⟨file, hfile, hp⟩ := hx.shared.file
      obtain ⟨f, m, hview⟩ := hx.shared.shown
      refine hx.step_task (hx.shared.step hA hW hsteps hrole) ?_ (fun j hj => ?_) fun j hj =>
        apart_step hsteps (hx.task j).owned (hx.apart k j (Ne.symm hj))
      · refine ⟨hsteps.resolved hx.shared.wf hrole.resolved,
          hsteps.owned hx.shared.sound hrole.owned, fun hk => ?_, fun hk => ?_⟩
        · exact hsteps.writes hx.shared.sound hfile hp hview (hrole.writes hk)
        · exact hsteps.reader hA hx.shared.wf hview hrole.resolved (hrole.reads hk)
      · refine Role.frame hA hj hx.shared hsteps hrole (hx.task j) (hx.apart j k hj) ?_ ?_
        · rintro rfl hinv
          exact htimely.1 hinv
        · rintro rfl hret
          exact htimely.2 hret

/-! ## After the write -/

/-- No recording deletes an object that the read `j` has in its snapshot and still has to open. -/
def KeepsSnapshotOf (j : ι) (x : Pool ι CallPc (World ρ)) : Move ι ℕ → Prop
  | .task k => k ≠ j → ∀ o ∈ (x.tasks j).toOpen, o ∉ (x.tasks k).deletes x.shared.store
  | .env _ => True

instance (j : ι) (x : Pool ι CallPc (World ρ)) (move : Move ι ℕ) :
    Decidable (KeepsSnapshotOf j x move) :=
  match move with
  | .task k => inferInstanceAs (Decidable (k ≠ j → ∀ o ∈ (x.tasks j).toOpen, _))
  | .env _ => isTrue trivial

variable (view) in
/-- What holds after the `write` has returned, for a call `j` that began later. -/
structure Written (i j : ι) (p : RemotePath) (handle : FileHandle) (call : CallPc) (f : Bytes)
    (m : Option Int) (chunkSize : ℕ) (x : Pool ι CallPc (World ρ)) : Prop where
  writing : Writing view i p handle x
  returned : ∃ n, x.tasks i = .done (.written (.ok n))
  shown : view x.shared.conn.remote p.asStr = some (.file f m)
  chunkSize : x.shared.store.chunkSize = chunkSize
  sees : CallPc.Sees view p f m call x.shared (x.tasks j)

lemma written_step (hA : StatsTree R view) (hW : WritesFiles R view) {j : ι} (hji : j ≠ i)
    {call : CallPc} {f : Bytes} {m : Option Int} {chunkSize : ℕ} (x : Pool ι CallPc (World ρ))
    (move : Move ι ℕ) (hcond : Timely view i p x move ∧ KeepsSnapshotOf j x move)
    (hx : Written view i j p handle call f m chunkSize x) :
    Written view i j p handle call f m chunkSize (step R x move) := by
  obtain ⟨htimely, hkeep⟩ := hcond
  obtain ⟨n, hreturned⟩ := hx.returned
  have hwriting := writing_step (R := R) hA hW x move htimely hx.writing
  have hserving := hx.writing.shared
  cases move with
  | env d =>
      refine ⟨hwriting, ⟨n, hreturned⟩, hx.shown, hx.chunkSize, ?_⟩
      have hsees := hx.sees
      rw [Calls.step, Pool.step_env_tasks]
      cases hpc : x.tasks j <;> rw [hpc] at hsees <;> exact hsees
  | task k =>
      by_cases hk : k = i
      · -- the write has ended
        subst hk
        have hsame : step R x (.task k) = x := by
          obtain ⟨tasks, w⟩ := x
          simp only [Calls.step, Pool.step] at hreturned ⊢
          rw [hreturned]
          simp only [CallPc.next]
          rw [← hreturned, Function.update_eq_self]
        rw [hsame]
        exact hx
      · have hsteps := steps_task R x k
        have hrole := hx.writing.task k
        have hreader := hrole.reads hk
        have hext := hsteps.extends hserving.wf
        have hview := congrFun (hsteps.view_reader hA hreader) p.asStr
        obtain ⟨hcurrent, hconfirmed⟩ :
            x.shared.Current view p ∧ x.shared.Confirmed view p := by
          have hwrites := (hx.writing.task i).writes rfl
          rw [hreturned] at hwrites
          exact hwrites n rfl
        have hsound : x.shared.store.Sound
            (World.ChunksOf p f m x.shared.store.chunkSize) := by
          obtain ⟨f', m', hf', hs⟩ := hcurrent
          rw [hx.shown] at hf'
          cases hf'
          exact hs
        refine ⟨hwriting, ⟨n, ?_⟩, hview.trans hx.shown, hext.chunkSize.trans hx.chunkSize, ?_⟩
        · rw [Calls.step, Pool.step_task_of_ne (Ne.symm hk)]
          exact hreturned
        · by_cases hkj : j = k
          · subst hkj
            rw [Calls.step, Pool.step_task_self]
            exact hsteps.sees hA hserving.wf hserving.mode hserving.noNegative hx.shown hconfirmed
              hsound (Store.noOverflow_of_size (hW.file_size _ _ _ _ hx.shown)
                x.shared.store.chunkSize_lt) hx.sees
          · rw [Calls.step, Pool.step_task_of_ne hkj]
            have hinv : (x.tasks i).invalidated ∧ (x.tasks i).returned := by
              rw [hreturned]
              exact ⟨rfl, rfl⟩
            exact hx.sees.frame hA hsteps hserving.wf (hx.writing.task j).owned hx.shown hsound
              hreader hrole.owned (hx.writing.apart j k hkj) (htimely.1 hinv.1) (htimely.2 hinv.2)
              (hkeep (Ne.symm hkj))

/-- **A write is seen by the calls after it.**  A mount with any history, one `write` of the file
`p` among any number of concurrent calls of `lookup`, `getattr` and `read`, in any interleaving
without late steps; in `x` the `write` has returned and the call `j`, which asks about `p`, has
not begun.  Then `j` answers with the file that the remote has in `x`, and it ends after a bounded
number of its own steps. -/
theorem write_seen (hA : StatsTree R view) (hW : WritesFiles R view) {config : Config}
    {conn : Conn ρ} (history : List (Event ρ)) (hhistory : ∀ e ∈ history, World.InSession e)
    {w : World ρ}
    (hw : w = run (World.step R) (World.new config Disk.empty conn) history)
    (hmode : w.config.cacheMode = .onDemand) {offset : UInt64} {data : Bytes} {file : OpenFile}
    (hfile : w.state.file handle = some file) (hp : file.path = p) {f₀ : Bytes} {m₀ : Option Int}
    (hview : view w.conn.remote p.asStr = some (.file f₀ m₀)) (hneg : w.NoNegative p)
    (calls : ι → CallPc) (hi : calls i = .write handle offset data)
    (hcalls : ∀ k, k ≠ i → (calls k).Asks) (before after : List (Move ι ℕ))
    (htimely : AllSteps (step R) (Timely view i p) ⟨calls, w⟩ (before ++ after))
    (hx : x = run (step R) ⟨calls, w⟩ before) {n : UInt32}
    (hreturned : x.tasks i = .done (.written (.ok n))) {j : ι}
    (hj : (x.tasks j).Concerns p x.shared)
    (hkeep : AllSteps (step R) (KeepsSnapshotOf j) x after) :
    ∃ f m, view x.shared.conn.remote p.asStr = some (.file f m) ∧
      view (run (step R) x after).shared.conn.remote p.asStr = some (.file f m) ∧
      (∀ answer, (run (step R) x after).tasks j = .done answer →
        (x.tasks j).Fulfils f m answer) ∧
      ((x.tasks j).work x.shared.store.chunkSize ≤ turns j after →
        ∃ answer, (run (step R) x after).tasks j = .done answer) := by
  have hevents : AllSteps (World.step R) (fun _ e => World.InSession e)
      (World.new config Disk.empty conn) history := allSteps_of_forall hhistory
  have hwf : w.state.Wf := by
    rw [hw]
    exact invariant (fun w e _ => World.wf_step (R := R) w e) (State.wf_new config.root) hevents
  have hsound : w.store.Sound fun _ _ _ _ => True := by
    rw [hw]
    exact invariant (fun w e he => World.sound_step (R := R) w e he)
      (Store.sound_new_empty config.cacheChunkSize) hevents
  obtain ⟨hbefore, hafter⟩ := allSteps_append.mp htimely
  rw [← hx] at hafter
  have hstart : Writing view i p handle ⟨calls, w⟩ := by
    have hnone : ∀ k, (calls k).owns = none := by
      intro k
      by_cases hk : k = i
      · rw [hk, hi]
        rfl
      · have hasks := hcalls k hk
        cases hc : calls k <;> rw [hc] at hasks <;> first | rfl | exact hasks.elim
    refine ⟨⟨hwf, hmode, ⟨file, hfile, hp⟩, ⟨f₀, m₀, hview⟩, hneg, hsound⟩, fun k => ?_,
      fun k k' _ o ho => ?_⟩
    · refine ⟨?_, CallPc.owned_of_owns_none (hnone k) _, fun hk => ?_, fun hk => ?_⟩
      · by_cases hk : k = i
        · show (calls k).Resolved w
          rw [hk, hi]
          trivial
        · exact (hcalls k hk).begins.resolved w
      · show (calls k).Writes view p handle w
        rw [hk, hi]
        exact rfl
      · exact (hcalls k hk).reader p w
    · cases (hnone k).symm.trans ho
  have hwriting : Writing view i p handle x := by
    rw [hx]
    exact invariant (fun y move => writing_step hA hW y move) hstart hbefore
  obtain ⟨f, m, hf⟩ := hwriting.shared.shown
  have hji : j ≠ i := by
    rintro rfl
    rw [hreturned] at hj
    exact hj
  have hseen : Written view i j p handle (x.tasks j) f m x.shared.store.chunkSize x :=
    ⟨hwriting, ⟨n, hreturned⟩, hf, rfl, CallPc.sees_of_concerns hj⟩
  have hcond := hafter.and hkeep
  have hstep : ∀ y move, Timely view i p y move ∧ KeepsSnapshotOf j y move →
      Written view i j p handle (x.tasks j) f m x.shared.store.chunkSize y →
      Written view i j p handle (x.tasks j) f m x.shared.store.chunkSize (step R y move) :=
    written_step hA hW hji
  have hend := invariant hstep hseen hcond
  refine ⟨f, m, hf, hend.shown, fun answer hdone => ?_, fun hturns => ?_⟩
  · have hsees := hend.sees
    rw [hdone] at hsees
    exact hsees
  · have hspent := spent_le (μ := fun pc => pc.work x.shared.store.chunkSize) (i := j) hstep
      (fun y hy => by
        have hwork := (steps_task R y j).work
        rw [hy.chunkSize] at hwork
        exact hwork) hseen hcond
    exact CallPc.done_of_work
      (Nat.eq_zero_of_le_zero (le_trans hspent (Nat.sub_eq_zero_of_le hturns).le))

/-! The file `/a` is open, and its metadata has expired.  A `getattr`, a `write` that makes the file
longer, and a later call follow. -/

def openedA : List (Event Memory) :=
  [.call (.lookup NodeId.root ['a']), .call (.openFile ⟨2⟩ { write := true }), .tick (5 * 10 ^ 9)]

/-- The mount before the concurrent calls. -/
def mountA : World Memory :=
  run (World.step Memory.filesystem) (World.mount World.sampleTree (5 * 10 ^ 9)) openedA

def writeCalls (later : CallPc) : Fin 3 → CallPc
  | 0 => .getattr ⟨2⟩
  | 1 => .write ⟨1⟩ 3 [9]
  | 2 => later

/-- The `getattr` ends before the `write` begins. -/
def writeLast : List (Move (Fin 3) ℕ) :=
  List.replicate 5 (.task 0) ++ List.replicate 4 (.task 1)

/-- The `getattr` has asked the remote before the `write` begins, and stores the answer after it has
returned. -/
def writeBetween : List (Move (Fin 3) ℕ) :=
  List.replicate 3 (.task 0) ++ List.replicate 4 (.task 1)

def readLater : List (Move (Fin 3) ℕ) := List.replicate 17 (.task 2)

def storeOld : List (Move (Fin 3) ℕ) := List.replicate 2 (.task 0) ++ List.replicate 3 (.task 2)

theorem write_seen_readLater :
    (run (step Memory.filesystem)
        (run (step Memory.filesystem) ⟨writeCalls (.read ⟨1⟩ 0 8), mountA⟩ writeLast)
        readLater).tasks 2 = .done (.data (.ok [1, 2, 3, 9])) ∧
      ∃ f m, ∀ answer, (run (step Memory.filesystem)
          (run (step Memory.filesystem) ⟨writeCalls (.read ⟨1⟩ 0 8), mountA⟩ writeLast)
          readLater).tasks 2 = .done answer →
        CallPc.Fulfils f m (.read ⟨1⟩ 0 8) answer := by
  refine ⟨rfl, ?_⟩
  obtain ⟨f, m, -, -, hanswer, -⟩ := write_seen Memory.statsTree Memory.mutates.writesFiles openedA
    (by decide) (w := mountA) rfl rfl rfl rfl rfl (fun _ _ _ h => nomatch h)
    (writeCalls (.read ⟨1⟩ 0 8))
    (i := (1 : Fin 3)) rfl (fun | 0, _ => trivial | 1, h => absurd rfl h | 2, _ => trivial)
    writeLast readLater
    (by decide) rfl rfl (j := (2 : Fin 3)) ⟨_, rfl, rfl, rfl⟩ (by decide)
  exact ⟨f, m, hanswer⟩

/-- The late answer of the `stat` is stored and given a time, and the later `getattr` reports the
size that the file had before the `write`. -/
theorem late_store_hides_write :
    (run (step Memory.filesystem) ⟨writeCalls (.getattr ⟨2⟩), mountA⟩ writeBetween).tasks 1 =
        .done (.written (.ok 1)) ∧
      ∃ metadata, (run (step Memory.filesystem) ⟨writeCalls (.getattr ⟨2⟩), mountA⟩
          (writeBetween ++ storeOld)).tasks 2 = .done (.metadata (.ok metadata)) ∧
        metadata.attributes.size = 3 ∧
        (run (step Memory.filesystem) ⟨writeCalls (.getattr ⟨2⟩), mountA⟩
          (writeBetween ++ storeOld)).shared.conn.remote.tree World.pathA.asStr =
            some (.file [1, 2, 3, 9] none) :=
  ⟨rfl, _, rfl, rfl, rfl⟩

end Calls

end CacheShfs
