import Chronicle.Command.Output
import Chronicle.Proofs.Json.Printed
import Chronicle.Proofs.Text.Bytes
import Chronicle.Proofs.Value.Written

/-!
# Dumps are read as they are written

Each part of a dump is written as a record that is read as that part again, and so is the dump as a
whole (`Dump.ofJson?_toJson`), whatever texts, times, counts and values it holds. A time that is
absent is a field that is left out, and is read as absent again.

In a text a count beyond 64 bits is a number but no integer. A dump whose counts fit 64 bits
(`Dump.Sized`) is written as a plain document, so it is read back from its text
(`Dump.read?_render`) and from the bytes that are put into its file (`Command.dumpIn_render`).
-/

namespace Chronicle

/-! ### Counts by name -/

namespace Tally

theorem eq_of_entries {t u : Tally} (h : t.entries = u.entries) : t = u := by
  cases t
  cases u
  cases h
  rfl

/-- A name behind all others is placed at the end. -/
theorem place_of_lt {name : String} {n : Nat} {l : List (String × Nat)}
    (h : ∀ entry ∈ l, entry.1 < name) : place name n l = l ++ [(name, n)] := by
  induction l with
  | nil => rfl
  | cons entry rest ih =>
      obtain ⟨hlt, hrest⟩ := List.forall_mem_cons.mp h
      rw [place, if_neg (String.lt_asymm hlt), if_neg (Std.ne_of_lt hlt).symm, ih hrest,
        List.cons_append]

/-- Entries in order are the tally of them. -/
theorem foldl_put {l : List (String × Nat)} (t : Tally)
    (h : (t.entries ++ l).Pairwise (·.1 < ·.1)) :
    (l.foldl (fun t entry => t.put entry.1 entry.2) t).entries = t.entries ++ l := by
  induction l generalizing t with
  | nil => rw [List.foldl_nil, List.append_nil]
  | cons entry rest ih =>
      have hplaced : (t.put entry.1 entry.2).entries = t.entries ++ [entry] :=
        place_of_lt fun other hother =>
          (List.pairwise_append.mp h).2.2 other hother entry List.mem_cons_self
      have hrest := ih (t.put entry.1 entry.2)
      rw [hplaced, List.append_assoc, List.singleton_append] at hrest
      exact hrest h

theorem ofList_entries (t : Tally) : ofList t.entries = t :=
  eq_of_entries (foldl_put {} t.sorted)

theorem ofJson?_toJson (t : Tally) : ofJson? t.toJson = some t := by
  rw [ofJson?, toJson, Json.obj?]
  simp only [Option.bind_eq_bind, Option.bind_some]
  rw [Json.mapM_map_eq_some]
  · exact congrArg some (ofList_entries t)
  · exact fun _ _ => rfl

end Tally

/-! ### Records -/

/-- A time that may be absent is read as it is written. -/
theorem optional?_timeToJson (t : Option Int64) :
    Json.optional? Json.int64? (t.map timeToJson) = some t := by
  cases t with
  | none => rfl
  | some t => exact Json.optional?_some nofun (Json.int64?_toInt t)

theorem Interval.ofJson?_toJson (i : Interval) : ofJson? i.toJson = some i := by
  have hrecord : i.toJson.record? [["start"], ["end"], ["value"]] =
    some [some (timeToJson i.start), some (timeToJson i.stop), some i.value.toJson] := rfl
  unfold ofJson?
  refine Option.bind_eq_some_iff.mpr ⟨_, hrecord, ?_⟩
  simp only [Option.bind_eq_bind, Option.bind_some, timeToJson, Json.int64?_toInt,
    Value.ofJson?_toJson]
  rfl

theorem FailureRecord.ofJson?_toJson (f : FailureRecord) : ofJson? f.toJson = some f := by
  have hrecord : f.toJson.record?
      [["event"], ["timestamp"], ["handler"], ["index"], ["kind"], ["message"]] =
    some [some (.str f.event), some (timeToJson f.timestamp), some (.str f.handler),
      some (.int f.index), some (.str f.kind), some (.str f.message)] := rfl
  unfold ofJson?
  refine Option.bind_eq_some_iff.mpr ⟨_, hrecord, ?_⟩
  simp only [Option.bind_eq_bind, Option.bind_some, timeToJson, Json.int64?_toInt, Json.str?]
  rfl

theorem AttributeRecord.ofJson?_toJson (a : AttributeRecord) : ofJson? a.toJson = some a := by
  have hrecord : a.toJson.record? [["path"], ["ongoing"], ["ongoing_since"], ["intervals"]] =
      some [some (.str a.path), some a.ongoing.toJson, a.since.map timeToJson,
        some (.arr (a.intervals.map Interval.toJson))] := by
    unfold toJson
    cases a.since <;> rfl
  have hintervals : (a.intervals.map Interval.toJson).mapM Interval.ofJson? = some a.intervals :=
    Json.mapM_map_eq_some fun i _ => i.ofJson?_toJson
  unfold ofJson?
  refine Option.bind_eq_some_iff.mpr ⟨_, hrecord, ?_⟩
  simp only [Option.bind_eq_bind, Option.bind_some, Json.str?, Value.ofJson?_toJson,
    optional?_timeToJson, Json.arr?, hintervals]
  rfl

namespace Dump

variable {d : Dump}

/-- **A dump is read as it is written.** -/
theorem ofJson?_toJson (d : Dump) : ofJson? d.toJson = some d := by
  have hrecord : d.toJson.record? [["version"], ["generated_at"], ["events_processed"],
      ["end_time"], ["failure_counts"], ["failures"], ["attributes"]] =
      some [some (.str d.version), some (.str d.generatedAt), some (.int d.processed),
        d.endTime.map timeToJson, some d.failureCounts.toJson,
        some (.arr (d.failures.map FailureRecord.toJson)),
        some (.arr (d.attributes.map AttributeRecord.toJson))] := by
    unfold toJson contentMembers
    cases d.endTime <;> rfl
  have hfailures : (d.failures.map FailureRecord.toJson).mapM FailureRecord.ofJson? =
      some d.failures := Json.mapM_map_eq_some fun f _ => f.ofJson?_toJson
  have hattributes : (d.attributes.map AttributeRecord.toJson).mapM AttributeRecord.ofJson? =
      some d.attributes := Json.mapM_map_eq_some fun a _ => a.ofJson?_toJson
  unfold ofJson?
  refine Option.bind_eq_some_iff.mpr ⟨_, hrecord, ?_⟩
  simp only [Option.bind_eq_bind, Option.bind_some, Json.str?, Json.arr?, optional?_timeToJson,
    Tally.ofJson?_toJson, hfailures, hattributes]
  rfl

end Dump

/-! ### Texts -/

theorem plain_natCast {n : Nat} (h : n < 18446744073709551616) : (Json.int n).plain = true :=
  Json.plain_int (by omega) (by omega)

theorem plain_int64 (n : Int64) : (Json.int n.toInt).plain = true := by
  have hle := n.le_toInt
  have hlt := n.toInt_lt
  exact Json.plain_int (by omega) (by omega)

theorem plain_of_mem_timeMember {name : String} {t : Option Int64} {m : String × Json}
    (h : m ∈ timeMember name t) : m.2.plain = true := by
  cases t with
  | none => cases h
  | some t =>
      obtain rfl := List.mem_singleton.mp h
      exact plain_int64 t

theorem Value.plain_toJson (v : Value) : v.toJson.plain = true := by
  cases v with
  | null => rfl
  | int n =>
      have hle := n.le_toInt
      have hlt := n.toInt_lt
      have hn : (Json.int n.toInt).plain = true := Json.plain_int (by omega) (by omega)
      exact Json.membersPlain_iff.mpr (List.forall_mem_singleton.mpr hn)
  | long n => exact Json.membersPlain_iff.mpr (List.forall_mem_singleton.mpr (plain_int64 n))
  | text s => rfl

theorem Interval.plain_toJson (i : Interval) : i.toJson.plain = true := by
  refine Json.membersPlain_iff.mpr fun m hm => ?_
  simp only [List.mem_cons, List.not_mem_nil, or_false] at hm
  rcases hm with rfl | rfl | rfl
  · exact plain_int64 i.start
  · exact plain_int64 i.stop
  · exact i.value.plain_toJson

theorem FailureRecord.plain_toJson {f : FailureRecord} (h : f.index < 18446744073709551616) :
    f.toJson.plain = true := by
  refine Json.membersPlain_iff.mpr fun m hm => ?_
  simp only [List.mem_cons, List.not_mem_nil, or_false] at hm
  rcases hm with rfl | rfl | rfl | rfl | rfl | rfl
  · rfl
  · exact plain_int64 f.timestamp
  · rfl
  · exact plain_natCast h
  · rfl
  · rfl

theorem AttributeRecord.plain_toJson (a : AttributeRecord) : a.toJson.plain = true := by
  have hintervals : (Json.arr (a.intervals.map Interval.toJson)).plain = true :=
    Json.itemsPlain_iff.mpr (List.forall_mem_map.mpr fun i _ => i.plain_toJson)
  refine Json.membersPlain_iff.mpr fun m hm => ?_
  simp only [List.mem_append, List.mem_cons, List.not_mem_nil, or_false] at hm
  rcases hm with ((rfl | rfl) | hm) | rfl
  · rfl
  · exact a.ongoing.plain_toJson
  · exact plain_of_mem_timeMember hm
  · exact hintervals

theorem Tally.plain_toJson {t : Tally} (h : ∀ entry ∈ t.entries, entry.2 < 18446744073709551616) :
    t.toJson.plain = true :=
  Json.membersPlain_iff.mpr (List.forall_mem_map.mpr fun entry hentry =>
    plain_natCast (h entry hentry))

namespace Dump

variable {d : Dump}

/-- The counts of a dump fit 64 bits. -/
structure Sized (d : Dump) : Prop where
  processed : d.processed < 18446744073709551616
  counts : ∀ entry ∈ d.failureCounts.entries, entry.2 < 18446744073709551616
  indices : ∀ f ∈ d.failures, f.index < 18446744073709551616

theorem Sized.plain_toJson (h : d.Sized) : d.toJson.plain = true := by
  have hfailures : (Json.arr (d.failures.map FailureRecord.toJson)).plain = true :=
    Json.itemsPlain_iff.mpr (List.forall_mem_map.mpr fun f hf =>
      FailureRecord.plain_toJson (h.indices f hf))
  have hattributes : (Json.arr (d.attributes.map AttributeRecord.toJson)).plain = true :=
    Json.itemsPlain_iff.mpr (List.forall_mem_map.mpr fun a _ => a.plain_toJson)
  refine Json.membersPlain_iff.mpr fun m hm => ?_
  simp only [contentMembers, List.mem_append, List.mem_cons, List.not_mem_nil, or_false] at hm
  rcases hm with (rfl | rfl) | ((rfl | hm) | rfl | rfl | rfl)
  · rfl
  · rfl
  · exact plain_natCast h.processed
  · exact plain_of_mem_timeMember hm
  · exact Tally.plain_toJson h.counts
  · exact hfailures
  · exact hattributes

/-- A dump is read back from its text. -/
theorem read?_render (h : d.Sized) : read? d.render = some d := by
  rw [read?, render, Json.parse_pretty h.plain_toJson, Option.bind_some, ofJson?_toJson]

end Dump

namespace Command

/-- **A dump is read back from the bytes of its file.** -/
theorem dumpIn_render {d : Dump} (h : d.Sized) : dumpIn (.bytes d.render.toUTF8) = .ok d := by
  have hfile : ∀ b, dumpIn (.bytes b) =
      ((some (Text.ofBytes b)).bind Dump.read?).elim (.error .notRead) .ok := fun _ => rfl
  rw [hfile, Text.ofBytes_toUTF8, Option.bind_some, d.read?_render h]
  rfl

/-- The first and the last time, the largest count, names with a quote and a line end, and a time
that is absent. -/
theorem dumpIn_render_of_largest :
    let d : Dump := {
      version := "1.0.0"
      generatedAt := "2024-01-01T00:00:00+00:00"
      processed := 18446744073709551615
      endTime := some 9223372036854775807
      failureCounts := Tally.ofList [("type_mismatch", 2), ("out_of_order", 1)]
      failures := [⟨"late", -9223372036854775808, "l*", 0, "out_of_order", "say \"late\""⟩]
      attributes := [
        ⟨"Comms/a\nb", .null, none, [⟨-5, 7, .long 4294967296⟩, ⟨7, 9, .text "\x01é"⟩]⟩,
        ⟨"Ticks", .int (-1), some 9, []⟩] }
    d.Sized ∧ dumpIn (.bytes d.render.toUTF8) = .ok d := by
  intro d
  have h : d.Sized := ⟨by decide, by decide, by decide⟩
  exact ⟨h, dumpIn_render h⟩

end Command
end Chronicle
