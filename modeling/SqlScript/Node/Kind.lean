/-!
# Kinds of nodes

Every node of a tree has one of these kinds. Families such as expressions or statements are no kind
of their own: their members are.
-/

namespace SqlScript

/-- The kinds of nodes. -/
inductive NodeKind where
  | ident
  | objectName
  | compoundIdent
  | wildcard
  | qualifiedWildcard
  | operator
  | literal
  | dataType
  | binary
  | unary
  | isNull
  | inList
  | inSubquery
  | between
  | cast
  | nested
  | function
  | windowSpec
  | windowFrame
  | frameBound
  | caseWhen
  | existsQuery
  | subquery
  | query
  | withClause
  | cte
  | parenthesizedQuery
  | setOperation
  | select
  | unnamedItem
  | aliasedItem
  | qualifiedWildcardItem
  | wildcardItem
  | sortKey
  | limit
  | table
  | derivedTable
  | crossJoin
  | qualifiedJoin
  | naturalJoin
  | partitionedTable
  | joinType
  | joinCondition
  | sharedColumns
  | assignment
  | insert
  | insertValues
  | row
  | insertQuery
  | update
  | delete
  | createView
  | createTable
  | columnDef
  | columnConstraint
  | columnNotNull
  | columnUnique
  | columnCheck
  | referenceKey
  | tableConstraint
  | tableUnique
  | tableForeignKey
  | tableCheck
  | alterTable
  | addColumn
  | addConstraint
  | dropConstraint
  | dropColumn
  | alterColumn
  | setDefault
  | dropDefault
  | setType
  | setNotNull
  | dropNotNull
  | dropTable
  | createIndex
  | dropIndex
  | explain
  | script
  | comment
  | commentGroup
  deriving DecidableEq, Repr

namespace NodeKind

/-- The name under which a kind is reported. -/
def name : NodeKind → String
  | ident => "Ident"
  | objectName => "ObjectName"
  | compoundIdent => "CompoundIdent"
  | wildcard => "Wildcard"
  | qualifiedWildcard => "QualifiedWildcard"
  | operator => "Operator"
  | literal => "Literal"
  | dataType => "DataType"
  | binary => "BinaryExpr"
  | unary => "UnaryExpr"
  | isNull => "IsNull"
  | inList => "InList"
  | inSubquery => "InSubquery"
  | between => "Between"
  | cast => "Cast"
  | nested => "Nested"
  | function => "Function"
  | windowSpec => "WindowSpec"
  | windowFrame => "WindowFrame"
  | frameBound => "FrameBound"
  | caseWhen => "CaseExpr"
  | existsQuery => "Exists"
  | subquery => "Subquery"
  | query => "Query"
  | withClause => "With"
  | cte => "Cte"
  | parenthesizedQuery => "ParenthesizedQuery"
  | setOperation => "SetOperation"
  | select => "Select"
  | unnamedItem => "UnnamedSelectItem"
  | aliasedItem => "AliasedSelectItem"
  | qualifiedWildcardItem => "QualifiedWildcardSelectItem"
  | wildcardItem => "WildcardSelectItem"
  | sortKey => "OrderByExpr"
  | limit => "LimitExpr"
  | table => "Table"
  | derivedTable => "Derived"
  | crossJoin => "CrossJoin"
  | qualifiedJoin => "QualifiedJoin"
  | naturalJoin => "NaturalJoin"
  | partitionedTable => "PartitionedJoinTable"
  | joinType => "JoinType"
  | joinCondition => "JoinCondition"
  | sharedColumns => "NamedColumnsJoin"
  | assignment => "Assignment"
  | insert => "InsertStmt"
  | insertValues => "ConstructorSource"
  | row => "RowValueExpr"
  | insertQuery => "SubquerySource"
  | update => "UpdateStmt"
  | delete => "DeleteStmt"
  | createView => "CreateViewStmt"
  | createTable => "CreateTableStmt"
  | columnDef => "ColumnDef"
  | columnConstraint => "ColumnConstraint"
  | columnNotNull => "NotNullColumnSpec"
  | columnUnique => "UniqueColumnSpec"
  | columnCheck => "CheckColumnSpec"
  | referenceKey => "ReferenceKeyExpr"
  | tableConstraint => "TableConstraint"
  | tableUnique => "UniqueTableConstraint"
  | tableForeignKey => "ReferentialTableConstraint"
  | tableCheck => "CheckTableConstraint"
  | alterTable => "AlterTableStmt"
  | addColumn => "AddColumnTableAction"
  | addConstraint => "AddConstraintTableAction"
  | dropConstraint => "DropConstraintTableAction"
  | dropColumn => "RemoveColumnTableAction"
  | alterColumn => "AlterColumnTableAction"
  | setDefault => "SetDefaultColumnAction"
  | dropDefault => "DropDefaultColumnAction"
  | setType => "SetDataTypeColumnAction"
  | setNotNull => "SetNotNullColumnAction"
  | dropNotNull => "DropNotNullColumnAction"
  | dropTable => "DropTableStmt"
  | createIndex => "CreateIndexStmt"
  | dropIndex => "DropIndexStmt"
  | explain => "ExplainStmt"
  | script => "File"
  | comment => "Comment"
  | commentGroup => "CommentGroup"

/-- Whether a comment below a node of this kind may belong to the node as a whole: statements and
queries. -/
def isContainer : NodeKind → Bool
  | query | insert | update | delete | createView | createTable | alterTable | dropTable
  | createIndex | dropIndex | explain => true
  | _ => false

end NodeKind

end SqlScript
