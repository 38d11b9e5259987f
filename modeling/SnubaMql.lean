import SnubaMql.Expressions
import SnubaMql.Query
import SnubaMql.Syntax
import SnubaMql.Visitor
import SnubaMql.Formula
import SnubaMql.Context
import SnubaMql.FilterSemantics
import SnubaMql.JoinChain
import SnubaMql.Arithmetic
import SnubaMql.Scoping
import SnubaMql.Aliases
import SnubaMql.Plans
import SnubaMql.FormulaPlan
import SnubaMql.AggregateTrees
import SnubaMql.FormulaFilters
import SnubaMql.Population
import SnubaMql.ContextChecks
import SnubaMql.Quantiles
import SnubaMql.NodeObjects
import SnubaMql.PostProcessing
import SnubaMql.CompiledPlans
