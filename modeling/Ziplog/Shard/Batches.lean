import Ziplog.Shard.Replication

/-!
# The batches of a proxy

The calls of `replicate_bytes` a proxy has made so far. Counting an ack changes one of them and
leaves its frame alone, so the frames only ever grow at the end (`frame_step`).
-/

namespace Ziplog

variable {n : ℕ} {batches : List (Batch n)} {j : Fin n}

theorem getElem?_addAck {state i : ℕ} {b : Batch n}
    (hb : (addAck batches state j)[i]? = some b) :
    batches[i]? = some b ∨
      i = state ∧ ∃ b₀, batches[i]? = some b₀ ∧ b = { b₀ with acks := b₀.acks ++ [j] } := by
  rw [addAck, List.getElem?_modify] at hb
  obtain ⟨b₀, hb₀, rfl⟩ := Option.map_eq_some_iff.mp hb
  split_ifs with hi
  · exact Or.inr ⟨hi.symm, b₀, hb₀, rfl⟩
  · exact Or.inl hb₀

theorem map_frame_addAck (batches : List (Batch n)) (state : ℕ) (j : Fin n) :
    (addAck batches state j).map Batch.frame = batches.map Batch.frame := by
  refine List.ext_getElem? fun i => ?_
  rw [List.getElem?_map, List.getElem?_map, addAck, List.getElem?_modify, Option.map_eq_map,
    Option.map_map]
  congr 1
  funext b
  show Batch.frame (if state = i then _ else b) = b.frame
  split_ifs <;> rfl

theorem length_addAck (batches : List (Batch n)) (state : ℕ) (j : Fin n) :
    (addAck batches state j).length = batches.length := List.length_modify _ _ _

theorem frame_addAck {state : ℕ} {b : Batch n} {i : ℕ} (hb : batches[i]? = some b) (j : Fin n) :
    ∃ b', (addAck batches state j)[i]? = some b' ∧ b'.frame = b.frame := by
  have hmap := congrArg (fun frames => frames[i]?) (map_frame_addAck batches state j)
  simp only [List.getElem?_map, hb, Option.map_some] at hmap
  exact Option.map_eq_some_iff.mp hmap

theorem getLast?_addAck {b : Batch n} (hb : batches.getLast? = some b) (state : ℕ) (j : Fin n) :
    ∃ b', (addAck batches state j).getLast? = some b' ∧ b.acks.length ≤ b'.acks.length := by
  rw [List.getLast?_eq_getElem?] at hb
  rw [List.getLast?_eq_getElem?, length_addAck, addAck, List.getElem?_modify, hb]
  refine ⟨_, rfl, ?_⟩
  split_ifs
  · exact (List.sublist_append_left _ _).length_le
  · exact le_rfl

namespace ShardState

variable {c : ShardConfig} {s t : ShardState c}

/-- The frames a step hands to the workers of a proxy. -/
def newFrames (p : Fin c.proxies) : ShardEvent c → List Frame
  | .replicate q seq payload _ => if p = q then [⟨q, seq, payload⟩] else []
  | _ => []

/-- **Frames are only added**, by a call of `replicate_bytes`. -/
theorem map_frame_step {e : ShardEvent c} (hs : s.step e = some t) (p : Fin c.proxies) :
    (t.proxy p).batches.map Batch.frame =
      (s.proxy p).batches.map Batch.frame ++ newFrames p e := by
  have hset : ∀ (q : Fin c.proxies) (ps : ReplicatorState c.servers),
      ps.batches.map Batch.frame = (s.proxy q).batches.map Batch.frame →
      (Function.update s.proxy q ps p).batches.map Batch.frame =
        (s.proxy p).batches.map Batch.frame ++ [] := by
    intro q ps hps
    rw [List.append_nil]
    by_cases hp : p = q
    · subst hp
      rw [Function.update_self, hps]
    · rw [Function.update_of_ne hp]
  cases effect_of_step hs with
  | @replicate q seq payload clients idle =>
    unfold newFrames
    by_cases hp : p = q
    · subst hp
      simp only [setProxy, Function.update_self, ReplicatorState.replicate, List.map_append,
        List.map_cons, List.map_nil, if_true]
    · simp only [setProxy, Function.update_of_ne hp, if_neg hp, List.append_nil]
      rfl
  | @pollAcks q ps hp =>
    unfold ReplicatorState.pollAcks at hp
    split at hp <;> cases hp
    exact hset q _ rfl
  | @pollLive q ps hp =>
    unfold ReplicatorState.pollLive at hp
    split at hp <;> cases hp
    exact hset q _ rfl
  | @respond q ps hp =>
    unfold ReplicatorState.respond at hp
    split at hp <;> cases hp
    exact hset q _ rfl
  | @count q j item l hl => exact hset q _ (map_frame_addAck _ _ _)
  | deliver running hd =>
    unfold ShardState.observe
    split <;> exact (List.append_nil _).symm
  | _ => exact (List.append_nil _).symm

/-- Frames of earlier calls stay what they are. -/
theorem frame_step {e : ShardEvent c} (hs : s.step e = some t) {p : Fin c.proxies} {i : ℕ}
    {b : Batch c.servers} (hb : (s.proxy p).batches[i]? = some b) :
    ∃ b', (t.proxy p).batches[i]? = some b' ∧ b'.frame = b.frame := by
  have hframes := congrArg (fun frames => frames[i]?) (map_frame_step hs p)
  have hlt : i < ((s.proxy p).batches.map Batch.frame).length := by
    rw [List.length_map]
    exact (List.getElem?_eq_some_iff.mp hb).1
  simp only [List.getElem?_append_left hlt, List.getElem?_map, hb, Option.map_some] at hframes
  exact Option.map_eq_some_iff.mp hframes

/-- The proxy has handed this frame to its workers. -/
def Sent (s : ShardState c) (p : Fin c.proxies) (f : Frame) : Prop :=
  ∃ b ∈ (s.proxy p).batches, b.frame = f

theorem sent_step {e : ShardEvent c} (hs : s.step e = some t) {p : Fin c.proxies} {f : Frame}
    (h : s.Sent p f) : t.Sent p f := by
  obtain ⟨b, hb, rfl⟩ := h
  obtain ⟨i, hi⟩ := List.mem_iff_getElem?.mp hb
  obtain ⟨b', hb', hframe⟩ := frame_step hs hi
  exact ⟨b', List.mem_of_getElem? hb', hframe⟩

end ShardState

end Ziplog
