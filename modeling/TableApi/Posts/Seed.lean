import TableApi.Posts.Model
import TableApi.Record.Write

/-! The first posts of a new store. -/

namespace TableApi.Posts

/-- A post to begin with, and how many days before now it was published. -/
structure Sample where
  title : String
  content : String
  status : String
  publishedDaysAgo? : Option Nat

def samples : List Sample := [
  ⟨"First Post", "This is the first post content", "published", some 1⟩,
  ⟨"Second Post", "This is the second post content", "draft", none⟩,
  ⟨"Third Post", "This is the third post about Ruby on Rails", "published", some 0⟩]

def Sample.record (now : Calendar.Moment) (s : Sample) : Record := [
  ("title", .text s.title), ("content", .text s.content), ("status", .text s.status),
  ("published_at", match s.publishedDaysAgo? with
    | some days => .moment (now.daysEarlier days)
    | none => .null)]

/-- Add the samples, all of them or none. -/
def seed (now : Calendar.Moment) (store : Store) : Except StoreError Store :=
  samples.foldlM (fun s sample =>
    (s.insert ⟨now, 0⟩ model (sample.record now)).map Prod.fst) store

def count (store : Store) : Nat := (store.rows model).length

def report (count : Nat) : String := "Created " ++ toString count ++ " posts\n"

end TableApi.Posts
