import TableApi.Schema.Model

/-! Posts: a numbered record with a title, a content, a status and the times of its life. -/

namespace TableApi.Posts

def timestamps : List Column := [
  (Column.plain "created_at" .moment).withDefault .now,
  { (Column.plain "updated_at" .moment).withDefault .now with stampedOnUpdate := true }]

def model : Model where
  name := "Post"
  table := "posts"
  columns := [
    (Column.plain "id" .integer).asKey,
    Column.plain "title" .text,
    Column.plain "content" .text,
    ((Column.plain "status" .text).withDefault (.value (.text "draft"))).withServerDefault "draft",
    (Column.plain "published_at" .moment).orNull] ++ timestamps

end TableApi.Posts
