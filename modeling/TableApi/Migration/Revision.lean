import TableApi.Migration.Database

/-! Revisions: named steps from one form of the database to the next and back. -/

namespace TableApi.Migration

structure Revision where
  id : String
  message : String
  upgrade : List Statement
  downgrade : List Statement
  deriving DecidableEq, Repr

/-- Revisions in the order in which they build on each other. -/
abbrev History : Type := List Revision

def postsTable : TableDef where
  name := "posts"
  columns := [
    ⟨"id", .integer, false, none⟩,
    ⟨"title", .varchar 255, false, none⟩,
    ⟨"content", .text, false, none⟩,
    ⟨"status", .varchar 50, false, some "draft"⟩,
    ⟨"published_at", .timestamp, true, none⟩,
    ⟨"created_at", .timestamp, false, none⟩,
    ⟨"updated_at", .timestamp, false, none⟩]
  key := "id"

/-- The revision that creates the table of posts with its indexes. -/
def createPosts : Revision where
  id := "0001_create_posts"
  message := "create posts table"
  upgrade := [
    .createTable postsTable,
    .createIndex ⟨"ix_posts_status", "posts", ["status"], false⟩,
    .createIndex ⟨"ix_posts_created_at", "posts", ["created_at"], false⟩]
  downgrade := [
    .dropIndex "ix_posts_created_at", .dropIndex "ix_posts_status", .dropTable "posts"]

def history : History := [createPosts]

namespace History

/-- The name of the form of the database after a count of revisions. -/
def nameAt (h : History) (count : Nat) : String :=
  match count with
  | 0 => ""
  | n + 1 => ((h[n]?).map Revision.id).getD ""

/-- The revision before another one. -/
def parent? (h : History) (id : String) : Option String :=
  match h.findIdx? (·.id == id) with
  | some (n + 1) => (h[n]?).map Revision.id
  | _ => none

def isHead (h : History) (id : String) : Bool := (h.getLast?.map Revision.id) = some id

def label (h : History) (id : String) : String := id ++ if h.isHead id then " (head)" else ""

/-- A revision with what it builds on and what it does. -/
def line (h : History) (r : Revision) : String :=
  (h.parent? r.id).getD "<base>" ++ " -> " ++ h.label r.id ++ ", " ++ r.message

end History

end TableApi.Migration
